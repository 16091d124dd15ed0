import LambdaNotation.Proofs.Stored

/-!
# Substitution is inert

Substitution inserts nothing. It keeps the shape of a term (`Term.shape`) and writes the texts of
the nodes anew from that shape (`Term.substitute_eq_rebuilt`): the target, the replacement and the
texts that the nodes held before leave no trace.
-/

namespace LambdaNotation

namespace Term

mutual

/-- The shape of a term: its variables, binders and parts, without the texts that its nodes hold. -/
def shape : Term → Tree
  | .var symbol => .var symbol
  | .node binder parts _ => .node binder (shapeAll parts)

def shapeAll : List Term → List Tree
  | [] => []
  | t :: ts => t.shape :: shapeAll ts

end

end Term

namespace Tree

open Term

mutual

/-- The term of a shape in which every node holds what substitution writes. -/
def rebuilt : Tree → Term
  | .var symbol => .var symbol
  | .node binder parts => .node binder (rebuiltAll parts) (Term.rewritten binder (rebuiltAll parts))

def rebuiltAll : List Tree → List Term
  | [] => []
  | t :: ts => t.rebuilt :: rebuiltAll ts

end

mutual

theorem shape_rebuilt : ∀ t : Tree, t.rebuilt.shape = t
  | .var _ => rfl
  | .node binder parts => by rw [rebuilt, shape, shapeAll_rebuiltAll parts]

theorem shapeAll_rebuiltAll : ∀ ts : List Tree, shapeAll (rebuiltAll ts) = ts
  | [] => rfl
  | t :: ts => by rw [rebuiltAll, shapeAll, shape_rebuilt t, shapeAll_rebuiltAll ts]

end

end Tree

namespace Term

section Substitute

variable (target : Text) (replacement : Term)

mutual

/-- What substitution makes of a term depends on its shape, and on nothing else. -/
theorem substitute_eq_rebuilt : ∀ t : Term, t.substitute target replacement = t.shape.rebuilt
  | .var symbol => by
    rw [substitute, shape, Tree.rebuilt]
    split
    · next h => rw [h]
    · rfl
  | .node binder parts _ => by
    rw [substitute, shape, Tree.rebuilt, substituteAll_eq_rebuiltAll parts, rewritten]

theorem substituteAll_eq_rebuiltAll :
    ∀ ts : List Term, substituteAll ts target replacement = Tree.rebuiltAll (shapeAll ts)
  | [] => rfl
  | t :: ts => by
    rw [substituteAll, shapeAll, Tree.rebuiltAll, substitute_eq_rebuilt t,
      substituteAll_eq_rebuiltAll ts]

end

theorem shape_substitute (t : Term) : (t.substitute target replacement).shape = t.shape := by
  rw [substitute_eq_rebuilt, Tree.shape_rebuilt]

end Substitute

/-! ## The notation of a shape -/

theorem sourceAll_rebuiltAll {ts : List Term} (h : ∀ t ∈ ts, t.shape.rebuilt.source = t.source) :
    sourceAll (Tree.rebuiltAll (shapeAll ts)) = sourceAll ts := by
  induction ts with
  | nil => rfl
  | cons t ts ih =>
    obtain ⟨ht, hts⟩ := List.forall_mem_cons.1 h
    rw [shapeAll, Tree.rebuiltAll, sourceAll, sourceAll, ht, ih hts]

/-- What a term writes in the notation does not depend on the texts that its nodes hold. -/
theorem source_rebuilt_shape (t : Term) : t.shape.rebuilt.source = t.source := by
  induction t using Term.ind with
  | var symbol => rfl
  | node binder parts stored ih =>
    have hparts := sourceAll_rebuiltAll ih
    rw [shape, Tree.rebuilt]
    cases binder with
    | none => rw [source, source, hparts]
    | some b =>
      have hbody := congrArg (fun s => 'L' :: (b ++ '.' :: '(' :: (s ++ [')']))) hparts
      -- Only one group alone gives the lambda its parentheses.
      cases parts with
      | nil => exact hbody
      | cons u us =>
        cases u with
        | var symbol => exact hbody
        | node c inner text =>
          cases c with
          | some c => exact hbody
          | none =>
            cases us with
            | cons v vs => exact hbody
            | nil =>
              have hgroup := ih (.node none inner text) (List.mem_singleton_self _)
              exact congrArg (fun s => 'L' :: (b ++ '.' :: s)) hgroup

theorem source_eq_of_shape_eq {t u : Term} (h : t.shape = u.shape) : t.source = u.source := by
  rw [← source_rebuilt_shape t, h, source_rebuilt_shape]

/-! ## Substitution leaves no trace -/

theorem betaStep?_bound (binder : Text) (parts : List Term) (stored : Text) (argument : Term) :
    (node (some binder) parts stored).betaStep? argument =
      some (group (Tree.rebuiltAll (shapeAll parts))) := by
  rw [betaStep?, instantiate, substituteAll_eq_rebuiltAll]

/-- **Substitution is inert.** What it makes of a term is the same for every target and every
replacement. It has the variables, the binders and the parts of the term, so it writes the same in
the notation, and to substitute again changes nothing. What a lambda makes of an argument is the
same for every argument. -/
theorem substitute_inert (t : Term) :
    (∀ target target' replacement replacement',
        t.substitute target replacement = t.substitute target' replacement') ∧
      (∀ target replacement, (t.substitute target replacement).shape = t.shape ∧
        (t.substitute target replacement).source = t.source) ∧
      (∀ target target' replacement replacement',
        (t.substitute target replacement).substitute target' replacement' =
          t.substitute target replacement) ∧
      ∀ binder parts stored, ∃ u, ∀ argument,
        (node (some binder) parts stored).betaStep? argument = some u := by
  refine ⟨fun target target' replacement replacement' => ?_, fun target replacement => ?_,
    fun target target' replacement replacement' => ?_, fun binder parts stored => ?_⟩
  · rw [substitute_eq_rebuilt, substitute_eq_rebuilt]
  · have hshape := shape_substitute target replacement t
    exact ⟨hshape, source_eq_of_shape_eq hshape⟩
  · rw [substitute_eq_rebuilt target', shape_substitute, substitute_eq_rebuilt]
  · exact ⟨_, betaStep?_bound binder parts stored⟩

end Term

end LambdaNotation
