import LambdaNotation.Text

/-!
# Lines

The lines of a source file, and which of them hold an expression.
-/

namespace LambdaNotation.Text

/-- The characters that Unicode calls white space. -/
def isBlank (c : Char) : Bool :=
  let n := c.toNat
  (9 ≤ n && n ≤ 13) || n == 0x20 || n == 0x85 || n == 0xA0 || n == 0x1680 ||
    (0x2000 ≤ n && n ≤ 0x200A) || n == 0x2028 || n == 0x2029 || n == 0x202F || n == 0x205F ||
    n == 0x3000

/-- The lines of a text. A line ends at a line feed, with or without a carriage return before it;
the last one may go without. -/
def lines : Text → List Text
  | [] => []
  | '\r' :: '\n' :: s => [] :: lines s
  | '\n' :: s => [] :: lines s
  | c :: s =>
    match lines s with
    | [] => [[c]]
    | l :: ls => (c :: l) :: ls

def trim (s : Text) : Text :=
  ((s.dropWhile isBlank).reverse.dropWhile isBlank).reverse

/-- Whether a line is a comment: it starts with two slashes. -/
def isComment (s : Text) : Bool := ['/', '/'].isPrefixOf s

/-- The expressions of a source file: its lines without the blanks around them, except empty ones
and comments. -/
def expressions (s : Text) : List Text :=
  ((lines s).map trim).filter fun l => !l.isEmpty && !isComment l

end LambdaNotation.Text
