import LambdaNotation.Command

/-!
# The program

Reads the file that the settings name, takes a fresh seed, and writes what the command answers.
-/

namespace LambdaNotation

/-- The system's number for an error, from a code that may be its negation. -/
def errorNumber (code : UInt32) : Nat := min code.toNat (0 - code).toNat

def FileError.ofSystem (e : IO.Error) : FileError :=
  match e with
  | .noFileOrDirectory .. => .notFound
  | .permissionDenied .. => .permissionDenied
  | .inappropriateType _ code _ => if errorNumber code = 20 then .notDirectory else .isDirectory
  | .invalidArgument _ code _ =>
    if errorNumber code = 36 then .nameTooLong else .other (toString e).toList
  | e => .other (toString e).toList

def readFile (path : String) : IO (Except FileError Text) := do
  if path.contains '\x00' then return .error .nulInPath
  try
    let bytes ← IO.FS.readBinFile path
    match String.fromUTF8? bytes with
    | some contents => return .ok contents.toList
    | none => return .error .notText
  catch e => return .error (.ofSystem e)

/-- The file that the arguments name, or nothing if they name none. -/
def sourceFile (arguments : List Text) : IO (Except FileError Text) :=
  match Settings.ofArguments arguments with
  | .ok { sourcePath := some path, .. } => readFile (String.ofList path)
  | _ => return .error .notFound

end LambdaNotation

/-- Answers the arguments of the command line. -/
def main (arguments : List String) : IO UInt32 := do
  let arguments := arguments.map String.toList
  let contents ← LambdaNotation.sourceFile arguments
  let fresh ← IO.rand 0 (UInt64.size - 1)
  let reply := LambdaNotation.Command.reply arguments (fun _ => contents) fresh.toUInt64
  (← IO.getStdout).putStr (String.ofList reply.output)
  (← IO.getStderr).putStr (String.ofList reply.errors)
  return reply.code.toUInt32
