import LambdaNotation.Proofs.Readable

/-!
# The printed form is canonical

Terms that are built from complete names print the same only if they are the same up to redundant
parentheses: what such a term prints is read back as its tree (`Term.Built.read?_print`).
-/

namespace LambdaNotation

open Text

namespace Term

variable {a b t : Term} {p q : Text → Prop}

theorem Built.over_collapse (h : t.Built p) : t.collapse.Over p := by
  induction h with
  | var h => exact .var h
  | @group parts _ ih =>
    rcases eq_singleton_or_shows none parts with ⟨-, t, rfl⟩ | hs
    · rw [Term.group, collapse_singleton]
      exact ih t (by simp)
    · rw [Term.group, collapse_of_shows hs, collapseAll_eq_map]
      exact .group (List.forall_mem_map.2 ih)
  | lambda hn _ ih =>
    rw [collapse_lambda]
    exact .lambda (.inr hn) ih

/-- Redundant parentheses do not make a difference, whatever the names. -/
theorem equals_of_collapse_eq (ha : a.Built p) (hb : b.Built q) (h : a.collapse = b.collapse) :
    a.equals b := by
  rw [equals_iff, ha.print_eq, hb.print_eq, h]

/-- With complete names, the tree is recovered from the printed form. -/
theorem Built.read?_print (h : t.Built (isName ·)) : Tree.read? t.print = some t.collapse := by
  rw [h.print_eq]
  exact (h.over_collapse.readable halts_nil).read?_text

/-- **The printed form is canonical** for terms with complete names: they are equal exactly if their
trees are, and the tree is what the printed form reads as. -/
theorem equals_iff_collapse_eq (ha : a.Built (isName ·)) (hb : b.Built (isName ·)) :
    (a.equals b ↔ a.collapse = b.collapse) ∧ Tree.read? a.print = some a.collapse := by
  refine ⟨⟨fun h => ?_, equals_of_collapse_eq ha hb⟩, ha.read?_print⟩
  have hr := ha.read?_print
  rw [equals_iff.1 h, hb.read?_print] at hr
  exact (Option.some.inj hr).symm

/-- A bare body and a group of one part: both terms print as `(λL1.(X1Y2)LB3)`. -/
theorem canonical_of_redundant_group :
    let a := group [lambda "L1".toList (group [var "X1".toList, group [var "Y2".toList]]),
      var "LB3".toList]
    let b := group [lambda "L1".toList (group [group [var "X1".toList, var "Y2".toList]]),
      group [var "LB3".toList]]
    a.Built (isName ·) ∧ b.Built (isName ·) ∧ (a.equals b ↔ a.collapse = b.collapse) ∧
      Tree.read? a.print = some a.collapse := by
  intro a b
  have hx : (var "X1".toList).Built (isName ·) := .var (by decide)
  have hy : (var "Y2".toList).Built (isName ·) := .var (by decide)
  have hz : (var "LB3".toList).Built (isName ·) := .var (by decide)
  have ha : a.Built (isName ·) := by
    refine .group (List.forall_mem_cons.2 ⟨.lambda (by decide) (.group ?_), ?_⟩)
    · exact List.forall_mem_cons.2 ⟨hx, List.forall_mem_singleton.2
        (.group (List.forall_mem_singleton.2 hy))⟩
    · exact List.forall_mem_singleton.2 hz
  have hb : b.Built (isName ·) := by
    refine .group (List.forall_mem_cons.2 ⟨.lambda (by decide) (.group ?_), ?_⟩)
    · exact List.forall_mem_singleton.2
        (.group (List.forall_mem_cons.2 ⟨hx, List.forall_mem_singleton.2 hy⟩))
    · exact List.forall_mem_singleton.2 (.group (List.forall_mem_singleton.2 hz))
  exact ⟨ha, hb, equals_iff_collapse_eq ha hb⟩

end Term

end LambdaNotation
