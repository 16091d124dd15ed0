import LambdaNotation.Proofs.Readable
import LambdaNotation.Proofs.Stored

/-!
# Equality is a congruence

Terms are compared by what they print, while substitution works on their nodes. It is a function of
the tree of a term (`Term.print_substitute`), and the tree of a term that the operations make can be
read off what it prints (`Term.Consistent.collapse_eq_of_print_eq`): what such a term prints is the
text of a tree, one that also shows where a node was built anew by substitution.
-/

namespace LambdaNotation

open Text

namespace Tree

mutual

/-- A tree without redundant parentheses and without lambdas that bind nothing. -/
def plain : Tree → Tree
  | .var symbol => .var symbol
  | .node none [t] => t.plain
  | .node (some []) [t] => t.plain
  | .node binder parts => .node binder (plainAll parts)

def plainAll : List Tree → List Tree
  | [] => []
  | t :: ts => t.plain :: plainAll ts

end

theorem plain_group {ts : List Tree} (h : ts.length ≠ 1) :
    (node none ts).plain = .node none (plainAll ts) := by
  rw [plain]
  · rintro t - rfl
    exact h rfl
  · exact fun _ h => nomatch h

theorem plain_singleton (t : Tree) : (node none [t]).plain = t.plain := by rw [plain]

theorem plain_unbound (t : Tree) : (node (some []) [t]).plain = t.plain := by rw [plain]

theorem plain_bound {b : Text} (h : isName b) (t : Tree) :
    (node (some b) [t]).plain = .node (some b) [t.plain] := by
  rw [plain]
  · rfl
  · exact fun _ h => nomatch h
  · rintro u hb
    rw [Option.some.inj hb] at h
    exact absurd h (by decide)

mutual

/-- What substitution makes of a tree, in writing. -/
def rewritten : Tree → Text
  | .var symbol => symbol
  | .node binder parts =>
    lambdaLetter :: (binder.getD [] ++ '.' :: '(' :: (rewrittenAll parts ++ [')']))

def rewrittenAll : List Tree → Text
  | [] => []
  | t :: ts => t.rewritten ++ rewrittenAll ts

end

end Tree

namespace Term

variable {a b t : Term} {ts : List Term}

theorem printAll_substituteAll {target : Text} {replacement : Term}
    (h : ∀ t ∈ ts, (t.substitute target replacement).print = t.collapse.rewritten) :
    printAll (substituteAll ts target replacement) = Tree.rewrittenAll (collapseAll ts) := by
  induction ts with
  | nil => rfl
  | cons t ts ih =>
    obtain ⟨ht, hts⟩ := List.forall_mem_cons.1 h
    rw [substituteAll, printAll_cons, ht, ih hts, collapseAll, Tree.rewrittenAll]

/-- What substitution makes of a term depends on the tree of the term, and on nothing else. -/
theorem print_substitute (t : Term) (target : Text) (replacement : Term) :
    (t.substitute target replacement).print = t.collapse.rewritten := by
  induction t using Term.ind with
  | var symbol =>
    rw [substitute, collapse, Tree.rewritten]
    split
    · next h => exact h.symm
    · rfl
  | node binder parts stored ih =>
    rcases eq_singleton_or_shows binder parts with ⟨rfl, t, rfl⟩ | hs
    · rw [collapse_singleton, substitute, substituteAll, substituteAll, print]
      exact ih t (by simp)
    · have hs' : Shows binder (substituteAll parts target replacement) := by
        intro hb
        rw [substituteAll_eq_map, List.length_map]
        exact hs hb
      rw [substitute, print_of_shows hs', printAll_substituteAll ih, collapse_of_shows hs,
        Tree.rewritten]

/-! ## What a term shows -/

/-- A tree that a term shows: its text is what the term prints, and without marks of substitution
it is the tree of the term. -/
structure Pictured (t : Term) (u : Tree) : Prop where
  names : u.Over (isName ·)
  text : u.text = t.print
  plain : u.plain = t.collapse

structure PicturedAll (ts : List Term) (us : List Tree) : Prop where
  names : ∀ u ∈ us, u.Over (isName ·)
  text : Tree.textAll us = printAll ts
  plain : Tree.plainAll us = collapseAll ts
  length : us.length = ts.length

theorem exists_picturedAll (h : ∀ t ∈ ts, ∃ u, Pictured t u) : ∃ us, PicturedAll ts us := by
  induction ts with
  | nil => exact ⟨[], fun _ h => (nomatch h), rfl, rfl, rfl⟩
  | cons t ts ih =>
    obtain ⟨⟨u, hu⟩, hts⟩ := List.forall_mem_cons.1 h
    obtain ⟨us, hus⟩ := ih hts
    refine ⟨u :: us, List.forall_mem_cons.2 ⟨hu.names, hus.names⟩, ?_, ?_, ?_⟩
    · rw [Tree.textAll_cons, hu.text, hus.text, printAll_cons]
    · rw [Tree.plainAll, hu.plain, hus.plain, collapseAll]
    · rw [List.length_cons, hus.length, List.length_cons]

section

variable {us : List Tree} {u : Tree} {binder : Text}

theorem PicturedAll.group (h : PicturedAll ts us) (hs : Shows none ts) :
    Pictured (group ts) (.node none us) := by
  refine ⟨.group h.names, ?_, ?_⟩
  · rw [Tree.text, h.text, Term.group, print_of_shows hs]
  · rw [Tree.plain_group (by rw [h.length]; exact hs rfl), h.plain, Term.group,
      collapse_of_shows hs]

/-- Of a group that was built anew the text shows a lambda that binds nothing. -/
theorem PicturedAll.rebuiltGroup (h : PicturedAll ts us) (hs : Shows none ts) :
    Pictured (.node none ts (lambdaLetter :: '.' :: '(' :: (printAll ts ++ [')'])))
      (.node (some []) [.node none us]) := by
  have hg := h.group hs
  refine ⟨.lambda (.inl rfl) hg.names, ?_, ?_⟩
  · rw [Tree.text, Tree.textAll_singleton, Tree.text, h.text, print_of_shows hs]
    rfl
  · rw [Tree.plain_unbound, hg.plain, Term.group, collapse_of_shows hs, collapse_of_shows hs]

theorem Pictured.lambda (hb : isName binder) (h : Pictured t u) :
    Pictured (lambda binder t) (.node (some binder) [u]) := by
  refine ⟨.lambda (.inr hb) h.names, ?_, ?_⟩
  · rw [Tree.text, Tree.textAll_singleton, h.text, print_lambda]
  · rw [Tree.plain_bound hb, h.plain, collapse_lambda]

/-- Of a lambda that was built anew the text shows parentheses around one part. -/
theorem Pictured.rebuiltLambda (hb : isName binder) (h : Pictured t u) :
    Pictured (.node (some binder) [t]
        (lambdaLetter :: (binder ++ '.' :: '(' :: (t.print ++ [')']))))
      (.node (some binder) [.node none [u]]) := by
  refine ⟨.lambda (.inr hb) (.group (List.forall_mem_singleton.2 h.names)), ?_, ?_⟩
  · rw [Tree.text, Tree.textAll_singleton, Tree.text, Tree.textAll_singleton, h.text,
      print_of_shows (shows_some binder [t])]
  · rw [Tree.plain_bound hb, Tree.plain_singleton, h.plain,
      collapse_of_shows (shows_some binder [t]), collapseAll, collapseAll]

end

/-- The two ways to write the text of a group, and the two to write that of a lambda, can be told
from one another in what is printed. -/
theorem Consistent.exists_pictured (h : t.Consistent (isName ·)) : ∃ u, Pictured t u := by
  induction h with
  | @var symbol hs => exact ⟨.var symbol, .var hs, rfl, rfl⟩
  | @node binder parts stored hb hk _ ih =>
    rcases eq_singleton_or_shows binder parts with ⟨rfl, t, rfl⟩ | hs
    · obtain ⟨u, hu⟩ := ih t (by simp)
      exact ⟨u, hu.names, hu.text, by rw [hu.plain, collapse_singleton]⟩
    · cases hk with
      | group =>
        obtain ⟨us, hus⟩ := exists_picturedAll ih
        exact ⟨_, hus.group hs⟩
      | rebuiltGroup =>
        obtain ⟨us, hus⟩ := exists_picturedAll ih
        exact ⟨_, hus.rebuiltGroup hs⟩
      | lambda b body =>
        obtain ⟨u, hu⟩ := ih body (by simp)
        exact ⟨_, hu.lambda (hb b rfl)⟩
      | rebuiltLambda b body =>
        obtain ⟨u, hu⟩ := ih body (by simp)
        exact ⟨_, hu.rebuiltLambda (hb b rfl)⟩

/-- What a term prints that the operations make determines its tree. -/
theorem Consistent.collapse_eq_of_print_eq (ha : a.Consistent (isName ·))
    (hb : b.Consistent (isName ·)) (h : a.print = b.print) : a.collapse = b.collapse := by
  obtain ⟨u, hu⟩ := ha.exists_pictured
  obtain ⟨v, hv⟩ := hb.exists_pictured
  have htext : u.text = v.text := by rw [hu.text, hv.text, h]
  have huv : u = v :=
    (hu.names.readable halts_nil).eq_of_text_eq (hv.names.readable halts_nil) htext
  rw [← hu.plain, ← hv.plain, huv]

/-! ## Equal terms in place of one another -/

/-- **Equality is a congruence.** Of terms that the operations make, equal ones can take the place
of one another in a group, under a lambda, and where something is substituted. -/
theorem equals_congr (ha : a.Made) (hb : b.Made) (h : a.equals b) :
    (∀ pre post, (group (pre ++ [a] ++ post)).equals (group (pre ++ [b] ++ post))) ∧
      (∀ binder, (lambda binder a).equals (lambda binder b)) ∧
      ∀ target replacement,
        (a.substitute target replacement).equals (b.substitute target replacement) := by
  rw [equals_iff] at h
  refine ⟨fun pre post => ?_, fun binder => ?_, fun target replacement => ?_⟩ <;> rw [equals_iff]
  · exact print_group_congr (by simp [h])
  · rw [print_lambda, print_lambda, h]
  · rw [print_substitute, print_substitute,
      ha.consistent.collapse_eq_of_print_eq hb.consistent h]

/-- Terms of different shape that substitution made: both print as `λX1.(λ.(X1Z1))`. -/
theorem equals_congr_of_rebuilt :
    let parts := [var "X1".toList, var "Z1".toList]
    let a := (lambda "X1".toList (group parts)).substitute "Y1".toList (var "W1".toList)
    let b := (group [lambda "X1".toList (group [group parts])]).substitute "X1".toList (group [])
    a.Made ∧ b.Made ∧ a.equals b ∧
      (group ([var "V1".toList] ++ [a] ++ [a])).equals
        (group ([var "V1".toList] ++ [b] ++ [a])) ∧
      (lambda "V1".toList a).equals (lambda "V1".toList b) ∧
      (a.substitute "Z1".toList b).equals (b.substitute "Z1".toList b) := by
  intro parts a b
  have hparts : ∀ t ∈ parts, t.Made :=
    List.forall_mem_cons.2 ⟨.var (by decide), List.forall_mem_singleton.2 (.var (by decide))⟩
  have hb : (group [lambda "X1".toList (group [group parts])]).Made :=
    .group (List.forall_mem_singleton.2 (.lambda (by decide)
      (.group (List.forall_mem_singleton.2 (.group hparts)))))
  have ha' : a.Made :=
    .substitute (.lambda (by decide) (.group hparts)) (by decide) (.var (by decide))
  have hb' : b.Made := .substitute hb (by decide) (.group fun _ h => nomatch h)
  have heq : a.equals b := by decide
  obtain ⟨hgroup, hlambda, hsubstitute⟩ := equals_congr ha' hb' heq
  exact ⟨ha', hb', heq, hgroup _ _, hlambda _, hsubstitute _ _⟩

end Term

end LambdaNotation
