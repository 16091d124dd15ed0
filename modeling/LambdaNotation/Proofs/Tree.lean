import LambdaNotation.Term
import LambdaNotation.Text.Name

/-!
# Trees

The tree of a term (`Term.collapse`) is what is left of it without the texts that its nodes hold
and without redundant parentheses: a group of one part is that part, everywhere. `Tree.text` writes
a tree with all the parentheses it has. What a term prints that is built from variables by groups
and lambdas is the text of its tree (`Term.Built.print_eq`).
-/

namespace LambdaNotation

open Text

/-- A term without the texts that its nodes hold. -/
inductive Tree where
  | var (symbol : Text)
  | node (binder : Option Text) (parts : List Tree)

namespace Tree

/-- Induction on trees, with the hypothesis for every part of a node. -/
theorem ind {motive : Tree → Prop} (var : ∀ symbol, motive (.var symbol))
    (node : ∀ binder parts, (∀ t ∈ parts, motive t) → motive (.node binder parts)) :
    ∀ t, motive t := by
  intro t
  refine Tree.rec (motive_2 := fun parts => ∀ t ∈ parts, motive t) var node
    (fun _ h => nomatch h) (fun t ts ht hts u hu => ?_) t
  rcases List.mem_cons.1 hu with rfl | h
  · exact ht
  · exact hts u h

mutual

/-- A tree in writing: parentheses around the parts of a group, the letter for lambda, the binder
and a dot before those of a bound node. -/
def text : Tree → Text
  | .var symbol => symbol
  | .node none parts => '(' :: (textAll parts ++ [')'])
  | .node (some binder) parts => lambdaLetter :: (binder ++ '.' :: textAll parts)

def textAll : List Tree → Text
  | [] => []
  | t :: ts => t.text ++ textAll ts

end

@[simp] theorem textAll_cons (t : Tree) (ts : List Tree) :
    textAll (t :: ts) = t.text ++ textAll ts := rfl

theorem textAll_singleton (t : Tree) : textAll [t] = t.text := List.append_nil _

end Tree

namespace Term

mutual

/-- The tree of a term: the texts of its nodes are forgotten, and every group of one part is
replaced by that part. -/
def collapse : Term → Tree
  | .var symbol => .var symbol
  | .node none [t] _ => t.collapse
  | .node binder parts _ => .node binder (collapseAll parts)

def collapseAll : List Term → List Tree
  | [] => []
  | t :: ts => t.collapse :: collapseAll ts

end

/-- Parentheses around one term are redundant; other nodes show. -/
def Shows (binder : Option Text) (parts : List Term) : Prop := binder = none → parts.length ≠ 1

/-- A node is redundant parentheses, or it shows. -/
theorem eq_singleton_or_shows (binder : Option Text) (parts : List Term) :
    (binder = none ∧ ∃ t, parts = [t]) ∨ Shows binder parts := by
  by_cases h : binder = none ∧ parts.length = 1
  · exact .inl ⟨h.1, List.length_eq_one_iff.1 h.2⟩
  · exact .inr fun hb hp => h ⟨hb, hp⟩

theorem shows_some (binder : Text) (parts : List Term) : Shows (some binder) parts :=
  fun h => nomatch h

variable {binder : Option Text} {parts : List Term} {stored : Text}

theorem print_of_shows (h : Shows binder parts) : (node binder parts stored).print = stored := by
  unfold print
  split
  · next he => cases he
  · next he =>
    cases he
    exact absurd rfl (h rfl)
  · next he =>
    cases he
    rfl

/-- A group prints its parts through what they print. -/
theorem print_group_congr {ts us : List Term} (h : ts.map print = us.map print) :
    (group ts).print = (group us).print := by
  have hlen : ts.length = us.length := by rw [← List.length_map, h, List.length_map]
  by_cases h1 : ts.length = 1
  · obtain ⟨t, rfl⟩ := List.length_eq_one_iff.1 h1
    obtain ⟨u, rfl⟩ := List.length_eq_one_iff.1 (hlen ▸ h1)
    exact List.head_eq_of_cons_eq h
  · rw [print_group h1, print_group (hlen ▸ h1), printAll, printAll, List.flatMap_def,
      List.flatMap_def, h]

theorem collapse_singleton (t : Term) (stored : Text) :
    (node none [t] stored).collapse = t.collapse := by
  rw [collapse]

theorem collapse_of_shows (h : Shows binder parts) :
    (node binder parts stored).collapse = .node binder (collapseAll parts) := by
  rw [collapse]
  rintro t rfl rfl
  exact h rfl rfl

theorem collapse_lambda (binder : Text) (body : Term) :
    (lambda binder body).collapse = .node (some binder) [body.collapse] :=
  collapse_of_shows (shows_some binder [body])

theorem collapseAll_eq_map (ts : List Term) : collapseAll ts = ts.map collapse := by
  induction ts with
  | nil => rfl
  | cons t ts ih => rw [collapseAll, ih, List.map_cons]

/-! ## Terms built from variables -/

/-- Terms that groups and lambdas over names build from variables with symbols that `p` allows. -/
inductive Built (p : Text → Prop) : Term → Prop
  | var {symbol : Text} (h : p symbol) : Built p (.var symbol)
  | group {parts : List Term} (h : ∀ t ∈ parts, Built p t) : Built p (.group parts)
  | lambda {binder : Text} {body : Term} (hn : isName binder) (h : Built p body) :
      Built p (.lambda binder body)

theorem printAll_eq_textAll {ts : List Term} (h : ∀ t ∈ ts, t.print = t.collapse.text) :
    printAll ts = Tree.textAll (collapseAll ts) := by
  induction ts with
  | nil => rfl
  | cons t ts ih =>
    obtain ⟨ht, hts⟩ := List.forall_mem_cons.1 h
    rw [printAll_cons, ht, ih hts, collapseAll, Tree.textAll_cons]

/-- Such a term prints its tree: the printed form hides redundant parentheses and nothing else. -/
theorem Built.print_eq {p : Text → Prop} {t : Term} (h : t.Built p) :
    t.print = t.collapse.text := by
  induction h with
  | var _ => rfl
  | @group parts _ ih =>
    rcases eq_singleton_or_shows none parts with ⟨-, t, rfl⟩ | hs
    · rw [print_group_singleton, Term.group, collapse_singleton]
      exact ih t (by simp)
    · rw [Term.group, print_of_shows hs, collapse_of_shows hs, Tree.text, printAll_eq_textAll ih]
  | lambda _ _ ih => rw [print_lambda, collapse_lambda, Tree.text, Tree.textAll_singleton, ih]

end Term

end LambdaNotation
