import LambdaNotation.Nesting
import LambdaNotation.ParseError
import LambdaNotation.Record
import LambdaNotation.Text.Name

/-!
# The context of a run, and what runs on moves

A run over one text keeps a context: where the automaton stands, the name and the body it is
collecting, the terms that are complete. Callbacks run on moves and change the context; a callback
that fails leaves the context as it was at the failure. Two callbacks have a captured body read as
a text of its own, one level further in, by whatever reads bodies for the run.
-/

namespace LambdaNotation

/-- What a run over one text has gathered. -/
structure Context where
  state : State := .start
  /-- The parentheses open after the last character. -/
  nesting : Nesting := {}
  name : Array Char := #[]
  body : Array Char := #[]
  terms : Array Term := #[]
  /-- How many captured bodies enclose the text. -/
  level : UInt64 := 0
  log : Log := ∅

/-- What a text comes to: its terms or a failure. -/
abbrev Outcome := Except (Failure ParseError) (List Term)

/-- Reads a captured body at a level. -/
abbrev BodyReader := Text → UInt64 → Logged Outcome

/-- Reads a body one level further in. There is no level beyond 64 bits. -/
def BodyReader.inner (read : BodyReader) (body : Text) (level : UInt64) : Logged Outcome :=
  if level.toNat + 1 < UInt64.size then read body (level + 1) else ⟨.error .overflow, ∅⟩

theorem BodyReader.inner_of_lt {level : UInt64} (h : level.toNat + 1 < UInt64.size)
    (read : BodyReader) (body : Text) : read.inner body level = read body (level + 1) := if_pos h

theorem BodyReader.inner_of_not_lt {level : UInt64} (h : ¬ level.toNat + 1 < UInt64.size)
    (read : BodyReader) (body : Text) : read.inner body level = ⟨.error .overflow, ∅⟩ := if_neg h

/-- A change of the context, which may fail. -/
abbrev Action := EStateM (Failure ParseError) Context

/-- What runs on a move, given the reader of bodies and the character of the move; the move at the
end of the text has none. -/
abbrev Callback := BodyReader → Option Char → Action Unit

namespace Context

def note (r : Record) (k : Context) : Context := { k with log := k.log.note r }

/-- Adds a complete term and its record. -/
def push (t : Term) (r : Record) (k : Context) : Context :=
  { k with terms := k.terms.push t, log := k.log.note r }

def clearName (k : Context) : Context := { k with name := #[] }

def clearBody (k : Context) : Context := { k with body := #[] }

end Context

namespace Callback

/-- Has a body read, one level further in. -/
def readBody (read : BodyReader) (body : Text) : Action (List Term) := fun k =>
  let reading := read.inner body k.level
  let k := { k with log := k.log ++ reading.log }
  match reading.value with
  | .ok terms => .ok terms k
  | .error x => .error x k

def extendName : Callback := fun _ c =>
  modify fun k => { k with name := k.name ++ c.toList }

def extendBody : Callback := fun _ c =>
  modify fun k => { k with body := k.body ++ c.toList }

def captureVariable : Callback := fun _ _ =>
  modify fun k =>
    let symbol := k.name.toList
    k.clearName.push (.var symbol) (.foundVariable symbol)

def captureGroup : Callback := fun read _ => do
  let body ← modifyGet fun k => (k.body.toList, k.clearBody)
  let parts ← readBody read body
  let group := Term.group parts
  modify (·.push group (.foundGroup group))

/-- Turns the name and the body into a lambda. The name is looked at before the body is read. -/
def captureLambda : Callback := fun read _ => do
  let (name, body) ← modifyGet fun k => ((k.name.toList, k.body.toList), k.clearName.clearBody)
  if Text.isName name then
    let parts ← readBody read body
    let lambda := Term.lambda name (Term.group parts)
    modify (·.push lambda (.foundLambda lambda))
  else
    throw (.ofFault (.invalidBinder name))

/-! ## What the callbacks do to a context -/

theorem extendName_apply (read : BodyReader) (c : Option Char) (k : Context) :
    extendName read c k = .ok () { k with name := k.name ++ c.toList } := rfl

theorem extendBody_apply (read : BodyReader) (c : Option Char) (k : Context) :
    extendBody read c k = .ok () { k with body := k.body ++ c.toList } := rfl

theorem captureVariable_apply (read : BodyReader) (c : Option Char) (k : Context) :
    captureVariable read c k =
      .ok () (k.clearName.push (.var k.name.toList) (.foundVariable k.name.toList)) := rfl

theorem readBody_of_ok {read : BodyReader} {body : Text} {k : Context} {parts : List Term}
    (h : (read.inner body k.level).value = .ok parts) :
    readBody read body k =
      .ok parts { k with log := k.log ++ (read.inner body k.level).log } := by
  simp only [readBody, h]

theorem readBody_of_error {read : BodyReader} {body : Text} {k : Context}
    {x : Failure ParseError} (h : (read.inner body k.level).value = .error x) :
    readBody read body k =
      .error x { k with log := k.log ++ (read.inner body k.level).log } := by
  simp only [readBody, h]

end Callback

end LambdaNotation
