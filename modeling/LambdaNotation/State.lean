import LambdaNotation.Text

/-!
# States and moves

The states of the automaton that reads the notation, and the moves between them. A name is read in
two states, its letters and its digits; a group `( … )` and a lambda `L X1 . ( … )` end in states
of their own, entered with the parenthesis that closes them.
-/

namespace LambdaNotation

/-- Where the automaton stands. -/
inductive State where
  /-- Nothing read yet. -/
  | start
  /-- After the `L` of a lambda. -/
  | lambda
  /-- In the letters of a binder. -/
  | binderLetters
  /-- In the digits of a binder. -/
  | binderDigits
  /-- After the dot behind a binder. -/
  | binderDot
  /-- Inside the parentheses of a lambda. -/
  | lambdaBody
  /-- After the parenthesis that closes a lambda. -/
  | lambdaEnd
  /-- In the letters of a variable. -/
  | nameLetters
  /-- In the digits of a variable. -/
  | nameDigits
  /-- Inside the parentheses of a group. -/
  | groupBody
  /-- After the parenthesis that closes a group. -/
  | groupEnd
  /-- After the end of the text. -/
  | done
  deriving DecidableEq, Repr, Inhabited

namespace State

/-- Every state, in the order in which a text meets them. -/
def all : List State :=
  [start, lambda, binderLetters, binderDigits, binderDot, lambdaBody, lambdaEnd, nameLetters,
    nameDigits, groupBody, groupEnd, done]

/-- The short label of a state, for messages. -/
def label : State → Text
  | start => "I_i".toList
  | lambda => "L_i".toList
  | binderLetters => "LV1".toList
  | binderDigits => "LV2".toList
  | binderDot => "LV3".toList
  | lambdaBody => "LP1".toList
  | lambdaEnd => "L_f".toList
  | nameLetters => "V_i".toList
  | nameDigits => "V_f".toList
  | groupBody => "P_i".toList
  | groupEnd => "P_f".toList
  | done => "E_0".toList

/-- The long label of a state, for descriptions of a machine. -/
def title : State → Text
  | start => "Initial".toList
  | lambda => "LambdaStart".toList
  | binderLetters => "BindingLetters".toList
  | binderDigits => "BindingDigits".toList
  | binderDot => "BindingDot".toList
  | lambdaBody => "LambdaBody".toList
  | lambdaEnd => "LambdaEnd".toList
  | nameLetters => "VariableLetters".toList
  | nameDigits => "VariableDigits".toList
  | groupBody => "ParenBody".toList
  | groupEnd => "ParenEnd".toList
  | done => "End".toList

/-- Whether the text may end in this state. The letters of a variable may go without digits at the
very end. -/
def acceptsEnd : State → Bool
  | start | nameLetters | nameDigits | lambdaEnd | groupEnd => true
  | _ => false

theorem label_injective {s t : State} (h : s.label = t.label) : s = t := by
  cases s <;> cases t <;> first | rfl | exact absurd h (by decide)

end State

/-- A move from a state to a state, which may be the same. -/
structure Move where
  source : State
  target : State
  deriving DecidableEq, Repr

def Move.render (m : Move) : Text := m.source.label ++ " -> ".toList ++ m.target.label

end LambdaNotation
