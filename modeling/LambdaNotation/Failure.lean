/-!
# Failures

What fails reports an error of its own, or a number in it grows beyond its bits. The latter is no
error that anybody is told: it stops the whole program.
-/

namespace LambdaNotation

/-- Why something comes to nothing. -/
inductive Failure (ε : Type) where
  | reported (error : ε)
  /-- A number does not fit its bits. -/
  | overflow
  deriving DecidableEq, Repr

namespace Failure

variable {ε ε' : Type}

/-- Reports something else. An overflow stays one. -/
def map (f : ε → ε') : Failure ε → Failure ε'
  | reported e => reported (f e)
  | overflow => overflow

@[simp] theorem map_reported (f : ε → ε') (e : ε) : (reported e).map f = reported (f e) := rfl

@[simp] theorem map_overflow (f : ε → ε') : (overflow : Failure ε).map f = overflow := rfl

end Failure

end LambdaNotation
