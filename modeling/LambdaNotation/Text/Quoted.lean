import LambdaNotation.Text.Printable

/-!
# Quoted text

Texts and characters as messages quote them: between delimiters, with the delimiter, the backslash
and every character that would not show itself written as an escape.
-/

namespace LambdaNotation

/-- A way of quoting: which characters beyond ASCII stand for themselves. -/
structure Quoting where
  shown : Char → Bool

namespace Quoting

def standard : Quoting := ⟨Text.isShown⟩

def byCodePoint (c : Char) : Text :=
  '\\' :: 'u' :: '\x7b' :: (Text.hexadecimal c.toNat ++ ['\x7d'])

variable (q : Quoting)

/-- One character of a text that stands between two copies of `delimiter`. -/
def escape (delimiter c : Char) : Text :=
  if c = delimiter ∨ c = '\\' then ['\\', c]
  else if c = '\x00' then ['\\', '0']
  else if c = '\t' then ['\\', 't']
  else if c = '\n' then ['\\', 'n']
  else if c = '\r' then ['\\', 'r']
  else if c < ' ' then byCodePoint c
  else if c < '\x7f' then [c]
  else if c = '\x7f' then byCodePoint c
  else if q.shown c then [c]
  else byCodePoint c

/-- A text between double quotes. -/
def text (s : Text) : Text := '\x22' :: (s.flatMap (q.escape '\x22') ++ ['\x22'])

/-- A character between single quotes. -/
def char (c : Char) : Text := '\x27' :: (q.escape '\x27' c ++ ['\x27'])

end Quoting

end LambdaNotation
