import LambdaNotation.Context

/-!
# Machines

A machine is the automaton together with the callbacks that run on its moves and a limit on the
nesting of bodies. Reading a text is one run over its characters; the callbacks that capture a body
have it read by the same machine, one level further in.

A body at a level beyond the limit is refused. Callbacks are any functions and may ask for bodies
at any level, so a machine need not come to an end by itself, and `Machine.run` leaves it to the
reader what the bodies come to. The callbacks that build terms ask for bodies further in only, and
there is one reader that reads bodies as their machine does: `Machine.parseBody`. It counts the
bodies that are open inside one another and stops at one more than the limit, which is where the
levels are beyond the limit anyway.

## Main definitions

* `Machine.standard` builds terms, `Machine.bare` only follows the automaton.
* `Machine.run` is one run over a text, for any reader of bodies.
* `Machine.parse` reads a text, `Machine.parseBody` a captured body, `Machine.apply` runs what is
  registered for one move.
-/

namespace LambdaNotation

/-- On which moves a callback runs. -/
inductive Trigger where
  | exact (move : Move)
  /-- On every move out of the state, also one back into it. -/
  | leaving (state : State)
  /-- On every move into the state, also one out of it. -/
  | entering (state : State)
  deriving DecidableEq, Repr

namespace Trigger

def fires : Trigger → Move → Bool
  | .exact m, move => m = move
  | leaving s, move => move.source = s
  | entering s, move => move.target = s

def render : Trigger → Text
  | .exact m =>
    "Exact(Transition \x7b from: ".toList ++ m.source.title ++ ", to: ".toList ++
      m.target.title ++ " \x7d)".toList
  | leaving s => "Leaving(".toList ++ s.title ++ ")".toList
  | entering s => "Entering(".toList ++ s.title ++ ")".toList

end Trigger

/-- The automaton with the callbacks on its moves, in the order in which they run, and the deepest
level at which a body is read. -/
structure Machine where
  callbacks : List (Trigger × Callback)
  limit : UInt64

namespace Machine

/-- The limit unless another is asked for. -/
def defaultLimit : UInt64 := 256

def bare (limit : UInt64) : Machine := ⟨[], limit⟩

/-- The callbacks that build terms. A variable is taken before the character after it is added to
anything. -/
def termCallbacks : List (Trigger × Callback) :=
  [(.exact ⟨.nameDigits, .nameLetters⟩, Callback.captureVariable),
    (.exact ⟨.nameDigits, .lambda⟩, Callback.captureVariable),
    (.exact ⟨.nameDigits, .groupBody⟩, Callback.captureVariable),
    (.exact ⟨.nameDigits, .done⟩, Callback.captureVariable),
    (.exact ⟨.nameLetters, .done⟩, Callback.captureVariable),
    (.entering .nameLetters, Callback.extendName),
    (.entering .nameDigits, Callback.extendName),
    (.entering .binderLetters, Callback.extendName),
    (.entering .binderDigits, Callback.extendName),
    (.exact ⟨.groupBody, .groupBody⟩, Callback.extendBody),
    (.exact ⟨.lambdaBody, .lambdaBody⟩, Callback.extendBody),
    (.exact ⟨.groupBody, .groupEnd⟩, Callback.captureGroup),
    (.exact ⟨.lambdaBody, .lambdaEnd⟩, Callback.captureLambda)]

/-- The machine that builds terms. -/
def standard (limit : UInt64) : Machine := ⟨termCallbacks, limit⟩

/-- The machine with one more callback, which runs after those it has. -/
def register (m : Machine) (trigger : Trigger) (callback : Callback) : Machine :=
  { m with callbacks := m.callbacks ++ [(trigger, callback)] }

variable (m : Machine)

/-- The callbacks that run on a move, in the order in which they were registered. -/
def callbacksFor (move : Move) : List Callback :=
  (m.callbacks.filter fun (trigger, _) => trigger.fires move).map Prod.snd

/-- Runs the callbacks of a move up to the first that fails. -/
def applyWith (read : BodyReader) (move : Move) (c : Option Char) : Action Unit :=
  (m.callbacksFor move).forM fun callback => callback read c

/-- Makes a move, on a character or at the end of the text, and runs its callbacks. An error of the
automaton ends the run. -/
def follow (read : BodyReader) (c : Option Char) : Except GrammarError Move → Action Unit
  | .error e => throw (.ofFault (.grammar e))
  | .ok move => do
    modify fun k => { k.note (.ofMove move c) with state := move.target }
    m.applyWith read move c

/-- Counts a character, if the count has room for it. -/
def count (c : Char) : Action Unit := fun k =>
  match k.nesting.count? c with
  | some n => .ok () { k with nesting := n }
  | none => .error .overflow k

/-- Takes one character: counts it and makes the move it leads to. -/
def feed (read : BodyReader) (c : Char) : Action Unit := do
  count c
  let k ← get
  m.follow read (some c) (k.state.step c k.nesting)

def finish (read : BodyReader) : Action Unit := do
  let k ← get
  m.follow read none k.state.finish

/-- Takes the characters of a text, raised to upper case, and ends it. -/
def scan (read : BodyReader) (s : Text) : Action Unit := do
  s.raised.forM (m.feed read)
  m.finish read

/-- One run over a text at a level, from a new context. -/
def run (read : BodyReader) (s : Text) (level : UInt64) : Logged Outcome :=
  match m.scan read s { level := level } with
  | .ok _ k => ⟨.ok k.terms.toList, k.log⟩
  | .error x k => ⟨.error x, k.log⟩

theorem follow_ok (read : BodyReader) (c : Option Char) (move : Move) (k : Context) :
    m.follow read c (.ok move) k = m.applyWith read move c
      { k with state := move.target, log := k.log.note (.ofMove move c) } := rfl

theorem follow_error (read : BodyReader) (c : Option Char) (e : GrammarError) (k : Context) :
    m.follow read c (.error e) k = .error (.ofFault (.grammar e)) k := rfl

theorem feed_of_count {k : Context} {c : Char} {n : Nesting} (read : BodyReader)
    (h : k.nesting.count? c = some n) : m.feed read c k =
      m.follow read (some c) (k.state.step c n) { k with nesting := n } := by
  have hcount : count c k = .ok () { k with nesting := n } := by simp only [count, h]
  show EStateM.bind (count c) _ k = _
  unfold EStateM.bind
  rw [hcount]
  rfl

theorem feed_of_overflow {k : Context} {c : Char} (read : BodyReader)
    (h : k.nesting.count? c = none) : m.feed read c k = .error .overflow k := by
  have hcount : count c k = .error .overflow k := by simp only [count, h]
  show EStateM.bind (count c) _ k = _
  unfold EStateM.bind
  rw [hcount]

/-- A character that is taken is counted. -/
theorem exists_count_of_feed_eq_ok {k k' : Context} {c : Char} {read : BodyReader}
    (h : m.feed read c k = .ok () k') : ∃ n, k.nesting.count? c = some n ∧
      m.follow read (some c) (k.state.step c n) { k with nesting := n } = .ok () k' := by
  rcases hn : k.nesting.count? c with _ | n
  · rw [m.feed_of_overflow read hn] at h
    cases h
  · rw [m.feed_of_count read hn] at h
    exact ⟨n, rfl, h⟩

theorem finish_apply (read : BodyReader) (k : Context) :
    m.finish read k = m.follow read none k.state.finish k := rfl

/-- Refuses a captured body: it lies too deep. -/
def refuse : BodyReader := fun body _ =>
  ⟨.error ((Failure.ofFault (.tooDeep m.limit)).within body), ∅⟩

/-- Reads captured bodies, at most `n` of them open inside one another. Errors name the body. -/
def bodies : Nat → BodyReader
  | 0 => m.refuse
  | n + 1 => fun body level =>
    if m.limit < level then m.refuse body level
    else
      let reading := m.run (bodies n) body level
      ⟨reading.value.mapError (·.within body), Log.note ∅ (.reading body level) ++ reading.log⟩

theorem refuse_value (body : Text) (level : UInt64) :
    (m.refuse body level).value = .error ((Failure.ofFault (.tooDeep m.limit)).within body) := rfl

variable {m} in
theorem bodies_of_tooDeep {level : UInt64} (h : m.limit < level) (body : Text) (n : Nat) :
    m.bodies n body level = m.refuse body level := by
  cases n with
  | zero => rfl
  | succ n => exact if_pos h

variable {m} in
theorem bodies_succ {level : UInt64} (h : ¬ m.limit < level) (body : Text) (n : Nat) :
    m.bodies (n + 1) body level =
      ⟨(m.run (m.bodies n) body level).value.mapError (·.within body),
        Log.note ∅ (.reading body level) ++ (m.run (m.bodies n) body level).log⟩ := if_neg h

/-- Reads a captured body at a level, for a machine whose callbacks ask for bodies further in only:
then no level is within the limit once so many bodies are open. -/
def parseBody : BodyReader := m.bodies (m.limit.toNat + 1)

def parse (s : Text) : Logged Outcome := m.run m.parseBody s 0

/-- Runs the callbacks of a move, up to the first that fails, without making the move. -/
def apply (move : Move) (c : Option Char) : Action Unit := m.applyWith m.parseBody move c

def describe : Text :=
  "TransitionExecutor \x7b mapped_states: ".toList ++ Text.numeral State.all.length ++
    ", callback_triggers: [".toList ++
    List.intercalate ", ".toList (m.callbacks.map fun (trigger, _) => trigger.render) ++
    "], config: ParserConfig \x7b max_nesting_depth: ".toList ++ Text.numeral m.limit.toNat ++
    " \x7d \x7d".toList

end Machine

end LambdaNotation
