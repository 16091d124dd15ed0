/-!
# Texts

A text is the list of its characters, so that a rule about texts is a rule about lists.
-/

namespace LambdaNotation

/-- A text is the list of its characters. -/
abbrev Text := List Char

namespace Text

/-- The decimal digits of `n`, without leading zeros. -/
def numeral (n : Nat) : Text := Nat.toDigits 10 n

/-- The hexadecimal digits of `n`, in lower case and without leading zeros. -/
def hexadecimal (n : Nat) : Text := Nat.toDigits 16 n

/-- The text with the letters `a` to `z` raised to `A` to `Z`; no other character changes, so no
letter beyond ASCII turns into one of the notation. -/
def raised (s : Text) : Text := s.map Char.toUpper

@[simp] theorem raised_nil : raised [] = [] := rfl

@[simp] theorem raised_cons (c : Char) (s : Text) : raised (c :: s) = c.toUpper :: raised s := rfl

@[simp] theorem raised_append (s t : Text) : raised (s ++ t) = raised s ++ raised t :=
  List.map_append

@[simp] theorem length_raised (s : Text) : (raised s).length = s.length := List.length_map _

theorem numeral_injective {m n : Nat} (h : numeral m = numeral n) : m = n := by
  rw [← @Nat.ofDigitChars_ten_toDigits m, ← @Nat.ofDigitChars_ten_toDigits n]
  exact congrArg _ h

end Text

end LambdaNotation
