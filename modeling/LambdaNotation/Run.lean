import LambdaNotation.Demonstration
import LambdaNotation.Machine
import LambdaNotation.Settings
import LambdaNotation.Text.Line

/-!
# Runs

A run reads the texts it is asked for, in order: the expression, the lines of the source file, the
random texts. It gives a line for each, after those of the demonstration, or the first failure. The
file and the random texts come from outside: how a path is read, and which texts a seed gives.
-/

namespace LambdaNotation

/-- Why a file cannot be read. -/
inductive FileError where
  | notFound
  /-- The path goes on below something that is no directory. -/
  | notDirectory
  | isDirectory
  /-- The path, or a name in it, is longer than the system allows. -/
  | nameTooLong
  /-- The system does not let the program read the file. -/
  | permissionDenied
  /-- The path has a NUL, which no path may have. -/
  | nulInPath
  | notText
  | other (message : Text)
  deriving DecidableEq, Repr

def FileError.message : FileError → Text
  | .notFound => "No such file or directory (os error 2)".toList
  | .notDirectory => "Not a directory (os error 20)".toList
  | .isDirectory => "Is a directory (os error 21)".toList
  | .nameTooLong => "File name too long (os error 36)".toList
  | .permissionDenied => "Permission denied (os error 13)".toList
  | .nulInPath => "file name contained an unexpected NUL byte".toList
  | .notText => "stream did not contain valid UTF-8".toList
  | .other message => message

/-- Why a run fails. -/
inductive RunError where
  | nothingToDo
  | file (error : FileError)
  | parse (input : Text) (error : ParseError)
  deriving DecidableEq, Repr

namespace RunError

def render (q : Quoting) : RunError → Text
  | nothingToDo =>
    "Configuration error: ".toList ++
      "Nothing to do. Give an expression, a source file, --demo or --random-count.".toList
  | file error => "Input file error: ".toList ++ error.message
  | parse input error => "Unable to parse ".toList ++ q.text input ++ ". ".toList ++ error.render q

def message (e : RunError) : Text := e.render .standard

def causes : RunError → Nat
  | nothingToDo => 0
  | file _ => 1
  | parse _ error => error.causes + 1

end RunError

/-- The line for a text: the text itself and what its terms print. -/
def entry (input : Text) (terms : List Term) : Text :=
  input ++ " => [".toList ++ List.intercalate ", ".toList (terms.map Term.print) ++ "]".toList

/-- Reads a text and gives its line. -/
def Machine.format (m : Machine) (input : Text) : Logged (Except (Failure RunError) Text) :=
  let reading := m.parse input
  match reading.value with
  | .ok terms => ⟨.ok (entry input terms), reading.log⟩
  | .error e => ⟨.error (e.map (.parse input)), reading.log⟩

/-- The lines of a part of a run, or the failure that ends it, with the records so far. -/
abbrev Report := Logged (Except (Failure RunError) (List Text))

namespace Report

def ofLines (lines : List Text) : Report := ⟨.ok lines, ∅⟩

/-- One part of a run and then, if it does not fail, another. -/
def andThen (first : Report) (rest : Unit → Report) : Report :=
  match first.value with
  | .error e => ⟨.error e, first.log⟩
  | .ok lines =>
    let rest := rest ()
    ⟨rest.value.map (lines ++ ·), first.log ++ rest.log⟩

end Report

/-- A supply of texts: where a seed starts it, and which text comes next. -/
structure Supply (σ : Type) where
  ofSeed : UInt64 → σ
  next : σ → Text × σ

/-- The next `n` texts of the supply. -/
def Supply.texts {σ : Type} (supply : Supply σ) : Nat → σ → List Text
  | 0, _ => []
  | n + 1, s => (supply.next s).1 :: supply.texts n (supply.next s).2

namespace Machine

variable (m : Machine)

def report (input : Text) : Report :=
  let line := m.format input
  ⟨line.value.map ([·]), line.log⟩

/-- The report on texts, up to the first that cannot be read. -/
def reportAll : List Text → Report
  | [] => .ofLines []
  | input :: inputs => (m.report input).andThen fun _ => reportAll inputs

/-- The report on the next `n` texts of a supply. Each is drawn when the one before it is read. -/
def reportDrawn {σ : Type} (supply : Supply σ) : Nat → σ → Report
  | 0, _ => .ofLines []
  | n + 1, s =>
    let drawn := supply.next s
    (m.report drawn.1).andThen fun _ => reportDrawn supply n drawn.2

/-- Drawing the texts one by one gives the report on all of them. -/
theorem reportDrawn_eq {σ : Type} (supply : Supply σ) (n : Nat) (s : σ) :
    m.reportDrawn supply n s = m.reportAll (supply.texts n s) := by
  induction n generalizing s with
  | zero => rfl
  | succ n ih => simp only [reportDrawn, Supply.texts, reportAll, ih]

end Machine

namespace Settings

variable (s : Settings)

def asksForSomething : Bool :=
  s.demo || s.expression.isSome || s.sourcePath.isSome || s.randomCount ≠ 0

def reportDemo : Report := .ofLines (if s.demo then Demonstration.lines else [])

def reportExpression (m : Machine) : Report := m.reportAll s.expression.toList

/-- The report on the source file, which `read` reads. -/
def reportFile (m : Machine) (read : Text → Except FileError Text) : Report :=
  match s.sourcePath with
  | none => .ofLines []
  | some path =>
    match read path with
    | .error e => ⟨.error (.reported (.file e)), ∅⟩
    | .ok contents => m.reportAll contents.expressions

/-- The report on the random texts; `fresh` is the seed if none is set. -/
def reportRandom (m : Machine) {σ : Type} (supply : Supply σ) (fresh : UInt64) : Report :=
  if s.randomCount = 0 then .ofLines []
  else
    let seed := s.seed.getD fresh
    let drawn := m.reportDrawn supply s.randomCount.toNat (supply.ofSeed seed)
    ⟨drawn.value, Log.note ∅ (.drawing s.randomCount seed) ++ drawn.log⟩

def run (read : Text → Except FileError Text) {σ : Type} (supply : Supply σ) (fresh : UInt64) :
    Logged (Except (Failure RunError) Text) :=
  if s.asksForSomething then
    let m := Machine.standard s.limit
    let report :=
      s.reportDemo.andThen fun _ =>
      (s.reportExpression m).andThen fun _ =>
      (s.reportFile m read).andThen fun _ =>
      s.reportRandom m supply fresh
    ⟨report.value.map (List.intercalate ['\n']), Log.note ∅ (.running m.describe) ++ report.log⟩
  else ⟨.error (.reported .nothingToDo), ∅⟩

end Settings

end LambdaNotation
