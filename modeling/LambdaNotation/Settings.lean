import LambdaNotation.Machine
import LambdaNotation.Text.Name

/-!
# Settings

What a run is asked to do, and how it is asked on a command line.

Arguments are taken one by one. An option waits for its value, which is the next argument unless
that is a dash with something after it, and is settled when the next option, flag or the end is
reached: only then does it count as given, and only then is its value read. An option that brings
its value along (`-eX`, `-e=X`, `--expression=X`) is settled at once, after the one before it.
Arguments that fit nothing are refused where they stand, whatever still waits.
-/

namespace LambdaNotation

/-- What a run does. -/
structure Settings where
  expression : Option Text := none
  sourcePath : Option Text := none
  demo : Bool := false
  randomCount : UInt64 := 0
  seed : Option UInt64 := none
  limit : UInt64 := Machine.defaultLimit
  verbose : Bool := false
  deriving DecidableEq, Repr

/-- Why arguments are not taken as settings. -/
inductive Refusal where
  /-- An option that does not exist, or an argument that belongs to none. -/
  | unknownArgument
  | missingValue
  /-- A value that is not a number of 64 bits. -/
  | badValue
  | repeated
  | unwantedValue
  | helpWanted
  | versionWanted
  deriving DecidableEq, Repr

/-- What can be given: options, which have a value, and flags, which have none. -/
inductive Switch where
  | expression
  | sourcePath
  | demo
  | randomCount
  | seed
  | limit
  | verbose
  | help
  | version
  deriving DecidableEq, Repr

namespace Switch

def hasValue : Switch → Bool
  | expression | sourcePath | randomCount | seed | limit => true
  | demo | verbose | help | version => false

/-- The switches with their names after two dashes and their letters after one. -/
def table : List (Switch × Text × Option Char) :=
  [(expression, "expression".toList, some 'e'),
    (sourcePath, "src-filepath".toList, some 's'),
    (demo, "demo".toList, some 'd'),
    (randomCount, "random-count".toList, some 'r'),
    (seed, "seed".toList, none),
    (limit, "max-nesting-depth".toList, some 'm'),
    (verbose, "verbose".toList, some 'v'),
    (help, "help".toList, some 'h'),
    (version, "version".toList, some 'V')]

def ofName (name : Text) : Option Switch :=
  (table.find? fun (_, n, _) => n = name).map Prod.fst

def ofLetter (letter : Char) : Option Switch :=
  (table.find? fun (_, _, l) => l = some letter).map Prod.fst

end Switch

/-- A number of 64 bits: digits, with or without a plus sign before them. -/
def Text.word? (s : Text) : Option UInt64 :=
  let digits := match s with
    | '+' :: digits => digits
    | digits => digits
  let n := Nat.ofDigitChars 10 digits 0
  if isDigitRun digits ∧ n < UInt64.size then some n.toUInt64 else none

namespace Settings

/-- Sets an option to a value, if the value is one of its kind. -/
def set (s : Settings) (option : Switch) (value : Text) : Option Settings :=
  match option with
  | .expression => some { s with expression := some value }
  | .sourcePath => some { s with sourcePath := some value }
  | .randomCount => value.word?.map fun n => { s with randomCount := n }
  | .seed => value.word?.map fun n => { s with seed := some n }
  | .limit => value.word?.map fun n => { s with limit := n }
  | .demo | .verbose | .help | .version => none

end Settings

/-- Arguments taken in part. -/
structure Arguments where
  settings : Settings := {}
  given : List Switch := []
  /-- The option that is not settled, with its value once that is there. -/
  pending : Option (Switch × Option Text) := none
  /-- Whether `--` was met: no switch follows. -/
  ended : Bool := false

namespace Arguments

def assign (a : Arguments) (option : Switch) (value : Text) : Except Refusal Arguments :=
  if option ∈ a.given then .error .repeated
  else
    match a.settings.set option value with
    | none => .error .badValue
    | some settings => .ok { a with settings, given := option :: a.given }

def settle (a : Arguments) : Except Refusal Arguments :=
  match a.pending with
  | none => .ok a
  | some (_, none) => .error .missingValue
  | some (option, some value) => { a with pending := none }.assign option value

def raise (a : Arguments) (flag : Switch) : Except Refusal Arguments := do
  let a ← a.settle
  match flag with
  | .help => .error .helpWanted
  | .version => .error .versionWanted
  | _ =>
    if flag ∈ a.given then .error .repeated
    else
      let settings := match flag with
        | .demo => { a.settings with demo := true }
        | .verbose => { a.settings with verbose := true }
        | _ => a.settings
      .ok { a with settings, given := flag :: a.given }

/-- Takes an option that brings its value along. -/
def attach (a : Arguments) (option : Switch) (value : Text) : Except Refusal Arguments := do
  let a ← a.settle
  a.assign option value

/-- Takes an option whose value is still to come. -/
def await (a : Arguments) (option : Switch) : Except Refusal Arguments := do
  let a ← a.settle
  .ok { a with pending := some (option, none) }

/-- Takes what follows two dashes: a name, and a value after an equals sign. -/
def takeName (a : Arguments) (s : Text) : Except Refusal Arguments :=
  match Switch.ofName (s.takeWhile (· ≠ '=')), s.dropWhile (· ≠ '=') with
  | none, _ => .error .unknownArgument
  | some switch, [] => if switch.hasValue then a.await switch else a.raise switch
  | some switch, _ :: value =>
    if switch.hasValue then a.attach switch value else .error .unwantedValue

/-- Takes what follows one dash: letters of flags, and perhaps one of an option, which may bring
its value along. -/
def takeLetters (a : Arguments) : Text → Except Refusal Arguments
  | [] => .ok a
  | c :: cs =>
    match Switch.ofLetter c with
    | none => .error .unknownArgument
    | some switch =>
      if switch.hasValue then
        match cs with
        | [] => a.await switch
        | '=' :: value => a.attach switch value
        | value => a.attach switch value
      else do
        let a ← a.raise switch
        a.takeLetters cs

/-- Takes an argument that is not a switch: it can only be the value of the pending option. -/
def takeValue (a : Arguments) (s : Text) : Except Refusal Arguments :=
  match a.pending with
  | some (option, none) => .ok { a with pending := some (option, some s) }
  | _ => .error .unknownArgument

def take (a : Arguments) (s : Text) : Except Refusal Arguments :=
  if a.ended then .error .unknownArgument
  else
    match s with
    | ['-', '-'] => .ok { a with ended := true }
    | '-' :: '-' :: s => a.takeName s
    | '-' :: c :: cs => a.takeLetters (c :: cs)
    | s => a.takeValue s

end Arguments

/-- The settings that the arguments of a command line ask for. -/
def Settings.ofArguments (arguments : List Text) : Except Refusal Settings := do
  let a ← arguments.foldlM Arguments.take {}
  let a ← a.settle
  .ok a.settings

end LambdaNotation
