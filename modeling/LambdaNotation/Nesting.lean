import LambdaNotation.Text

/-!
# Open parentheses

A running count of the parentheses that are open.
-/

namespace LambdaNotation

/-- How many more parentheses were opened than closed, in 32 bits: it is negative after too many
closing ones. -/
structure Nesting where
  depth : Int32 := 0
  deriving DecidableEq, Repr

namespace Nesting

/-- Counts one character: `(` adds one, `)` takes one away. There is no count beyond 32 bits. -/
def count? (n : Nesting) (c : Char) : Option Nesting :=
  if c = '(' then
    if n.depth = Int32.maxValue then none else some ⟨n.depth + 1⟩
  else if c = ')' then
    if n.depth = Int32.minValue then none else some ⟨n.depth - 1⟩
  else some n

end Nesting

end LambdaNotation
