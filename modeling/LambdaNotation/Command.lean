import LambdaNotation.Random.Source
import LambdaNotation.Run
import LambdaNotation.Sample

/-!
# The command

What the command line program answers: the code it ends with and what it writes to its two
outputs. The random texts are drawn from the words that the seed gives.
-/

namespace LambdaNotation

/-- How deep groups and lambdas lie in random texts. -/
def randomDepth : Nat := 3

/-- The texts drawn from the words of a seed. The empty text stands for a draw that never ends. -/
def Supply.random : Supply ChaCha where
  ofSeed := ChaCha.ofSeed
  next s := (Sample.text randomDepth s).getD ([], s)

structure Reply where
  code : UInt8 := 0
  output : Text := []
  errors : Text := []

namespace Command

def version : Text := "lambda-fsm-parser 0.1.0".toList

def help : Text :=
  List.intercalate ['\n'] (List.map String.toList [
    "Usage: lambda-fsm-parser [OPTIONS]",
    "",
    "Options:",
    "  -e, --expression <TEXT>        read a text, such as (X1)LY1.(X1)",
    "  -s, --src-filepath <PATH>      read each line of a file, except empty ones and // comments",
    "  -d, --demo                     show the demonstration",
    "  -r, --random-count <N>         read random texts [default: 0]",
    "      --seed <N>                 the seed of the random texts",
    "  -m, --max-nesting-depth <N>    how deep groups and lambdas may lie [default: 256]",
    "  -v, --verbose                  show the records",
    "  -h, --help                     show this help",
    "  -V, --version                  show the version"])

def line (s : Text) : Text := s ++ ['\n']

def refusalMessage : Refusal → Text
  | .unknownArgument => "error: unexpected argument".toList
  | .missingValue => "error: an option is without its value".toList
  | .badValue => "error: a value is not a number".toList
  | .repeated => "error: an option is given twice".toList
  | .unwantedValue => "error: a flag is given a value".toList
  | .helpWanted => help
  | .versionWanted => version

/-- The answer to arguments that are refused. -/
def refuse (r : Refusal) : Reply :=
  match r with
  | .helpWanted | .versionWanted => { output := line (refusalMessage r) }
  | _ => { code := 2, errors := line (refusalMessage r) }

/-- The answer to the arguments. The records are written only if asked for. A number that does not
fit its bits ends the program with a code of its own. -/
def reply (arguments : List Text) (read : Text → Except FileError Text) (fresh : UInt64) : Reply :=
  match Settings.ofArguments arguments with
  | .error r => refuse r
  | .ok settings =>
    let result := settings.run read Supply.random fresh
    let records :=
      if settings.verbose then result.log.toList.flatMap fun r => line (r.render .standard) else []
    match result.value with
    | .ok output => { output := line output, errors := records }
    | .error (.reported e) => { code := 1, errors := records ++ line e.message }
    | .error .overflow => { code := 101, errors := records }

end Command

end LambdaNotation
