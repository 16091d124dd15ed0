import LambdaNotation.Nesting
import LambdaNotation.State
import LambdaNotation.Text.Quoted

/-!
# The automaton

Where each character leads, and what is wrong when it leads nowhere. A text is a sequence of
expressions:

* a variable: letters, then digits; the first letter is not `L`;
* a group: `(`, a text, `)`;
* a lambda: `L`, a binder (letters, then digits), `.`, `(`, a text, `)`.

The automaton does not look into the bodies of groups and lambdas: it only finds the parenthesis
that closes them.
-/

namespace LambdaNotation

/-- Why the automaton stops. -/
inductive GrammarError where
  /-- `found` leads nowhere from `state`, which waits for what `expected` says. -/
  | unexpectedCharacter (state : State) (found : Char) (expected : Text)
  /-- The text ends in a state where it may not end. -/
  | unexpectedEnd (state : State)
  deriving DecidableEq, Repr

def GrammarError.render (q : Quoting) : GrammarError → Text
  | .unexpectedCharacter state found expected =>
    "Parser in state (".toList ++ state.label ++ ") encountered invalid next character ".toList ++
      q.char found ++ ". Expected: ".toList ++ expected ++ ".".toList
  | .unexpectedEnd state =>
    "Input ended while parser was in state (".toList ++ state.label ++ ").".toList

namespace State

/-- Where the first character of an expression leads. `L` is a lambda even though it is a letter. -/
def opening (c : Char) : Option State :=
  if c = 'L' then some lambda
  else if c = '(' then some groupBody
  else if c.isUpper then some nameLetters
  else none

/-- Where a character of a body leads, `n` counting it already: out with the parenthesis that
leaves none open. -/
def closing (body closed : State) (c : Char) (n : Nesting) : State :=
  if c = ')' ∧ n.depth = 0 then closed else body

/-- Where a character leads, `n` counting it already. -/
def next? (s : State) (c : Char) (n : Nesting) : Option State :=
  match s with
  | start | lambdaEnd | groupEnd => opening c
  | lambda => if c.isUpper then some binderLetters else none
  | binderLetters =>
    if c.isUpper then some binderLetters else if c.isDigit then some binderDigits else none
  | binderDigits =>
    if c.isDigit then some binderDigits else if c = '.' then some binderDot else none
  | binderDot => if c = '(' then some lambdaBody else none
  | lambdaBody => some (closing lambdaBody lambdaEnd c n)
  | nameLetters =>
    if c.isUpper then some nameLetters else if c.isDigit then some nameDigits else none
  | nameDigits => if c.isDigit then some nameDigits else opening c
  | groupBody => some (closing groupBody groupEnd c n)
  | done => none

def expected : State → Text
  | start | lambdaEnd | groupEnd | nameDigits => "'L', '(' or an uppercase letter".toList
  | lambda => "an uppercase letter starting the lambda binding".toList
  | binderLetters => "a letter or digit of the lambda binding".toList
  | binderDigits => "a digit or the '.' ending the lambda binding".toList
  | binderDot => "'(' opening the lambda body".toList
  | nameLetters => "a letter or digit of the variable name".toList
  | lambdaBody | groupBody => "any character".toList
  | done => "no further input".toList

/-- The move on a character, `n` counting it already. -/
def step (s : State) (c : Char) (n : Nesting) : Except GrammarError Move :=
  match s.next? c n with
  | some t => .ok ⟨s, t⟩
  | none => .error (.unexpectedCharacter s c s.expected)

/-- The move at the end of the text. -/
def finish (s : State) : Except GrammarError Move :=
  if s.acceptsEnd then .ok ⟨s, done⟩ else .error (.unexpectedEnd s)

theorem step_eq_ok_iff {s : State} {c : Char} {n : Nesting} {move : Move} :
    s.step c n = .ok move ↔ move.source = s ∧ s.next? c n = some move.target := by
  obtain ⟨source, target⟩ := move
  unfold step
  cases s.next? c n <;> simp [eq_comm]

theorem finish_eq_ok_iff {s : State} {move : Move} :
    s.finish = .ok move ↔ s.acceptsEnd ∧ move = ⟨s, done⟩ := by
  unfold finish
  split
  · next h => simp only [Except.ok.injEq, h, true_and]; exact eq_comm
  · next h => simp [h]

end State

end LambdaNotation
