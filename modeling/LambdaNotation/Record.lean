import LambdaNotation.State
import LambdaNotation.Term
import LambdaNotation.Text.Quoted

/-!
# Records

What a run writes down on its way: every move, every captured body, every term that comes out.
-/

namespace LambdaNotation

inductive Importance where
  | trace
  | debug
  | info
  deriving DecidableEq, Repr

def Importance.label : Importance → Text
  | .trace => "TRACE".toList
  | .debug => "DEBUG".toList
  | .info => "INFO".toList

inductive Record where
  | moved (move : Move) (c : Char)
  | ended (move : Move)
  | reading (body : Text) (level : UInt64)
  | foundVariable (symbol : Text)
  | foundGroup (term : Term)
  | foundLambda (term : Term)
  /-- A run starts with the machine described. -/
  | running (machine : Text)
  | drawing (count seed : UInt64)

namespace Record

/-- The record of a move, on a character or at the end of the text. -/
def ofMove (move : Move) : Option Char → Record
  | some c => moved move c
  | none => ended move

def importance : Record → Importance
  | moved .. | ended .. => .trace
  | reading .. | foundVariable .. | foundGroup .. | foundLambda .. | running .. => .debug
  | drawing .. => .info

def message (q : Quoting) : Record → Text
  | moved move c => move.render ++ " on ".toList ++ q.char c
  | ended move => move.render ++ " at end of input".toList
  | reading body level =>
    "Parsing captured text ".toList ++ q.text body ++ " at level ".toList ++
      Text.numeral level.toNat
  | foundVariable symbol => "Captured variable ".toList ++ symbol
  | foundGroup term => "Captured parenthetical ".toList ++ term.print
  | foundLambda term => "Captured lambda ".toList ++ term.print
  | running machine => "Running with ".toList ++ machine
  | drawing count seed =>
    "Generating ".toList ++ Text.numeral count.toNat ++
      " random expressions with seed ".toList ++ Text.numeral seed.toNat

/-- A record with its importance, as it is written. -/
def render (q : Quoting) (r : Record) : Text :=
  '[' :: (r.importance.label ++ ']' :: ' ' :: r.message q)

end Record

/-- The records of a run. Adding a record and joining two logs take the same time however long the
logs are; `toList` has the records in order. -/
inductive Log where
  | empty
  | note (log : Log) (r : Record)
  | append (log next : Log)

namespace Log

instance : EmptyCollection Log := ⟨.empty⟩

instance : Append Log := ⟨.append⟩

/-- The records, the oldest first, and then those of a list. -/
def toListAppend : Log → List Record → List Record
  | empty, rs => rs
  | note log r, rs => log.toListAppend (r :: rs)
  | append log next, rs => log.toListAppend (next.toListAppend rs)

/-- The records, the oldest first. -/
def toList (log : Log) : List Record := log.toListAppend []

theorem toListAppend_eq (log : Log) (rs : List Record) :
    log.toListAppend rs = log.toList ++ rs := by
  induction log generalizing rs with
  | empty => rfl
  | note log r ih =>
    change log.toListAppend (r :: rs) = log.toListAppend [r] ++ rs
    rw [ih, ih [r], List.append_assoc, List.singleton_append]
  | append log next ihl ihn =>
    change log.toListAppend (next.toListAppend rs) = log.toListAppend (next.toListAppend []) ++ rs
    rw [ihl, ihl (next.toListAppend []), ihn, List.append_assoc]
    rfl

@[simp] theorem toList_note (log : Log) (r : Record) : (log.note r).toList = log.toList ++ [r] :=
  log.toListAppend_eq [r]

@[simp] theorem toList_append (log next : Log) : (log ++ next).toList = log.toList ++ next.toList :=
  log.toListAppend_eq next.toList

end Log

/-- A value and the records written on the way to it. -/
structure Logged (α : Type) where
  value : α
  log : Log

end LambdaNotation
