import LambdaNotation.Text

/-!
# Terms

The terms of the lambda calculus as the notation writes them: variables, groups of terms, and
lambdas over a body. A group stands for the application of its parts, from left to right, and for
the parentheses around them.

A node keeps the text it was built with, `stored`. What it prints differs from that text only for
a group of one part, which prints as the part: parentheses around a single term do not show.
`source` writes a term in the notation again.

## Main definitions

* `Term.group`, `Term.lambda` build nodes.
* `Term.print` is the printed form, `Term.equals` compares by it.
* `Term.source` is the text that reads as the term.
* `Term.substitute`, `Term.instantiate`, `Term.betaStep?` are the operations of substitution.
-/

namespace LambdaNotation

def lambdaLetter : Char := 'λ'

/-- A term: a variable, or a node over parts, bound if it has a binder. -/
inductive Term where
  | var (symbol : Text)
  | node (binder : Option Text) (parts : List Term) (stored : Text)
  deriving Repr, Inhabited

namespace Term

/-- Induction on terms, with the hypothesis for every part of a node. -/
theorem ind {motive : Term → Prop} (var : ∀ symbol, motive (.var symbol))
    (node : ∀ binder parts stored, (∀ t ∈ parts, motive t) → motive (.node binder parts stored)) :
    ∀ t, motive t := by
  intro t
  refine Term.rec (motive_2 := fun parts => ∀ t ∈ parts, motive t) var node
    (fun _ h => nomatch h) (fun t ts ht hts u hu => ?_) t
  rcases List.mem_cons.1 hu with rfl | h
  · exact ht
  · exact hts u h

/-! ## Printing -/

/-- The printed form: of a group of one part that of the part, of any other node the stored
text. -/
def print : Term → Text
  | .var symbol => symbol
  | .node none [t] _ => t.print
  | .node _ _ stored => stored

def printAll (ts : List Term) : Text := ts.flatMap print

/-- Terms are equal when they print the same. -/
def equals (t u : Term) : Bool := t.print == u.print

theorem equals_iff {t u : Term} : t.equals u ↔ t.print = u.print := by simp [equals]

@[simp] theorem printAll_nil : printAll [] = [] := rfl

@[simp] theorem printAll_cons (t : Term) (ts : List Term) :
    printAll (t :: ts) = t.print ++ printAll ts := rfl

/-! ## Building -/

/-- The terms in parentheses, one after the other. -/
def group (parts : List Term) : Term :=
  .node none parts ('(' :: (printAll parts ++ [')']))

/-- The abstraction of `body` over `binder`, which need not occur in it. -/
def lambda (binder : Text) (body : Term) : Term :=
  .node (some binder) [body] (lambdaLetter :: (binder ++ '.' :: body.print))

@[simp] theorem print_group_singleton (t : Term) : (group [t]).print = t.print := rfl

@[simp] theorem print_lambda (binder : Text) (body : Term) :
    (lambda binder body).print = lambdaLetter :: (binder ++ '.' :: body.print) := rfl

theorem print_group {parts : List Term} (h : parts.length ≠ 1) :
    (group parts).print = '(' :: (printAll parts ++ [')']) := by
  match parts with
  | [] => rfl
  | [_] => exact absurd rfl h
  | _ :: _ :: _ => rfl

/-! ## The notation -/

mutual

/-- The term in the notation. The parentheses of a lambda are those of its body, if that is one
group. -/
def source : Term → Text
  | .var symbol => symbol
  | .node none parts _ => '(' :: (sourceAll parts ++ [')'])
  | .node (some binder) [.node none parts _] _ =>
    'L' :: (binder ++ '.' :: '(' :: (sourceAll parts ++ [')']))
  | .node (some binder) parts _ =>
    'L' :: (binder ++ '.' :: '(' :: (sourceAll parts ++ [')']))

def sourceAll : List Term → Text
  | [] => []
  | t :: ts => source t ++ sourceAll ts

end

@[simp] theorem sourceAll_append (ts us : List Term) :
    sourceAll (ts ++ us) = sourceAll ts ++ sourceAll us := by
  induction ts with
  | nil => rfl
  | cons t ts ih => simp [sourceAll, ih]

/-! ## Substitution -/

mutual

/-- Substitution of a term for the variable `target`. A variable that is the target stands for the
target itself, so the replacement is not inserted. Every node is built anew, with a text that
starts with the letter for lambda even without a binder; no binder shields its body. -/
def substitute (t : Term) (target : Text) (replacement : Term) : Term :=
  match t with
  | .var symbol => if symbol = target then .var target else .var symbol
  | .node binder parts _ =>
    let parts := substituteAll parts target replacement
    .node binder parts
      (lambdaLetter :: (binder.getD [] ++ '.' :: '(' :: (printAll parts ++ [')'])))

def substituteAll (ts : List Term) (target : Text) (replacement : Term) : List Term :=
  match ts with
  | [] => []
  | t :: ts => substitute t target replacement :: substituteAll ts target replacement

end

theorem substituteAll_eq_map (ts : List Term) (target : Text) (replacement : Term) :
    substituteAll ts target replacement = ts.map (·.substitute target replacement) := by
  induction ts with
  | nil => rfl
  | cons t ts ih => simp [substituteAll, ih]

/-- The group of what substitution makes of the parts of a node. -/
def instantiate (parts : List Term) (target : Text) (replacement : Term) : Term :=
  group (substituteAll parts target replacement)

/-- The application of a lambda to an argument: substitution of the argument for the binder in the
body, once. Only a bound node can be applied. -/
def betaStep? : Term → (argument : Term) → Option Term
  | .node (some binder) parts _, argument => some (instantiate parts binder argument)
  | _, _ => none

end Term

end LambdaNotation
