import LambdaNotation.Automaton
import LambdaNotation.Failure

/-!
# Errors of a parse

A parse fails for one fault, found in the text itself or in a body captured from it, or in a body
captured from that body. The error names the captured texts on the way to the fault.
-/

namespace LambdaNotation

/-- What is wrong. -/
inductive Fault where
  /-- The automaton stops. -/
  | grammar (error : GrammarError)
  /-- A lambda ends whose binder is not a name. -/
  | invalidBinder (binder : Text)
  /-- A body lies deeper than the limit allows. -/
  | tooDeep (limit : UInt64)
  /-- A state is met for which there is no rule. -/
  | unmapped (state : State)
  deriving DecidableEq, Repr

/-- A fault and the captured texts that lead to it, the outermost first. -/
structure ParseError where
  captured : List Text
  fault : Fault
  deriving DecidableEq, Repr

def Fault.render (q : Quoting) : Fault → Text
  | .grammar error => "Grammar error: ".toList ++ error.render q
  | .invalidBinder binder =>
    "Cannot finish lambda: binding ".toList ++ q.text binder ++
      " is not a variable name.".toList
  | .tooDeep limit =>
    "Expressions nested more than ".toList ++ Text.numeral limit.toNat ++
      " levels deep.".toList
  | .unmapped state =>
    "No transition mapper registered for state (".toList ++ state.label ++ ").".toList

/-- How many errors a fault rests on: only the automaton reports an error of its own. -/
def Fault.causes : Fault → Nat
  | .grammar _ => 1
  | _ => 0

namespace ParseError

/-- The error of a text whose own fault this is. -/
def ofFault (fault : Fault) : ParseError := ⟨[], fault⟩

/-- The error of a text with a captured body `body` that has this error. -/
def within (body : Text) (e : ParseError) : ParseError := { e with captured := body :: e.captured }

/-- The message of an error: each captured text, then the fault. -/
def render (q : Quoting) (e : ParseError) : Text :=
  (e.captured.flatMap fun body => "In captured expression ".toList ++ q.text body ++ ": ".toList) ++
    e.fault.render q

def message (e : ParseError) : Text := e.render .standard

def causes (e : ParseError) : Nat := e.captured.length + e.fault.causes

@[simp] theorem render_within (q : Quoting) (body : Text) (e : ParseError) :
    (e.within body).render q =
      "In captured expression ".toList ++ q.text body ++ ": ".toList ++ e.render q := by
  simp [render, within]

end ParseError

namespace Failure

/-- The failure of a text whose own fault this is. -/
def ofFault (fault : Fault) : Failure ParseError := .reported (.ofFault fault)

/-- The failure of a text with a captured body `body` that fails so. -/
def within (body : Text) (x : Failure ParseError) : Failure ParseError := x.map (·.within body)

theorem within_eq_reported_iff {body : Text} {x : Failure ParseError} {e : ParseError} :
    x.within body = .reported e ↔ ∃ e', x = .reported e' ∧ e = e'.within body := by
  cases x with
  | reported e' => simp [within, eq_comm]
  | overflow => simp [within]

end Failure

end LambdaNotation
