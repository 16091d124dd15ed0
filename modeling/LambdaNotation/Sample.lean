import LambdaNotation.Random.Draw
import LambdaNotation.Text

/-!
# Random expressions

Random texts of the notation. Names have one or two letters and one or two digits, sequences one to
three expressions, and groups and lambdas lie in one another at most as deep as asked for. The
letters come out in either case.
-/

namespace LambdaNotation.Sample

variable {σ : Type} [WordSource σ]

/-- The letters of names. `L` is left out, since at the front of a name it would start a lambda. -/
def nameLetters : Text := "ABCDEFGHIJKMNOPQRSTUVWXYZ".toList

/-- The texts that `n` draws give, one after the other. -/
def times (draw : Draw σ Text) : Nat → Draw σ Text
  | 0 => pure []
  | n + 1 => do
    let s ← draw
    let t ← times draw n
    pure (s ++ t)

/-- One to `most` draws; how many is drawn first. -/
def upTo (most : Nat) (draw : Draw σ Text) : Draw σ Text := do
  let n ← Draw.below .long most
  times draw (n + 1)

def letter : Draw σ Text := do
  let k ← Draw.below .long nameLetters.length
  pure [nameLetters.getD k 'A']

def digit : Draw σ Text := do
  let k ← Draw.digit
  pure [Nat.digitChar k]

def name : Draw σ Text := do
  let letters ← upTo 2 letter
  let digits ← upTo 2 digit
  pure (letters ++ digits)

def sequenceOf (expression : Draw σ Text) : Draw σ Text := upTo 3 expression

/-- An expression: at depth zero a name, else a name, a group or a lambda. -/
def expression : Nat → Draw σ Text
  | 0 => name
  | depth + 1 => do
    let choice ← Draw.below .short 3
    if choice = 0 then name
    else if choice = 1 then do
      let body ← sequenceOf (expression depth)
      pure ('(' :: (body ++ [')']))
    else do
      let binder ← name
      let body ← sequenceOf (expression depth)
      pure ('L' :: (binder ++ '.' :: '(' :: (body ++ [')'])))

/-- A character as it is or, if it is a letter, in lower case. -/
def eitherCase (c : Char) : Draw σ Char := do
  let lower ← Draw.coin
  pure (if lower then c.toLower else c)

/-- A random text with groups and lambdas at most `depth` deep. -/
def text (depth : Nat) : Draw σ Text := do
  let s ← sequenceOf (expression depth)
  s.mapM eitherCase

end LambdaNotation.Sample
