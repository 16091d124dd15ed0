import LambdaNotation.Term

/-!
# A demonstration

A few terms built by hand, with what they print: abstraction, grouping, parentheses that do not
show, and the application of a lambda.
-/

namespace LambdaNotation.Demonstration

def x : Term := .var "X1".toList

/-- The variable under a binder that does not occur. -/
def abstraction : Term := .lambda "Y1".toList x

def concatenation : Term := .group [abstraction, x]

/-- The concatenation in `n` more pairs of parentheses. -/
def wrapped : Nat → Term
  | 0 => concatenation
  | n + 1 => .group [wrapped n]

/-- The text a term was built with. -/
def storedText : Term → Text
  | .var symbol => symbol
  | .node _ _ stored => stored

/-- The line for the concatenation in `n` more pairs of parentheses. -/
def wrappedLine (n : Nat) : Text :=
  "wrapped ".toList ++ Text.numeral n ++ " time(s): ".toList ++ (wrapped n).print ++
    " (stored as ".toList ++ storedText (wrapped n) ++ ")".toList

def identity : Term := .lambda "X1".toList x

def argument : Term := .var "Z1".toList

def applicationLine (result : Term) : Text :=
  '(' :: (identity.print ++ ") applied to ".toList ++ argument.print ++ ": ".toList ++ result.print)

def lines : List Text :=
  ["variable: ".toList ++ x.print,
    "abstraction: ".toList ++ abstraction.print,
    "concatenation: ".toList ++ concatenation.print] ++
  [1, 2, 3].map wrappedLine ++
  ["wrapped equals unwrapped: ".toList ++
    (if (wrapped 3).equals concatenation then "true".toList else "false".toList)] ++
  (identity.betaStep? argument).toList.map applicationLine

end LambdaNotation.Demonstration
