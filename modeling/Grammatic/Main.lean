import Grammatic.CommandLine.Run

/-!
# The program

The command line with the files and the streams of the machine. The exit code is zero for a run that
ends well, one for a run that ends with a message or a fault, and two for wrong usage.
-/

namespace Grammatic.CommandLine

/-- The reason that the system gives for a failure. -/
def reasonOf : IO.Error → String
  | .noFileOrDirectory _ _ _ => "No such file or directory"
  | .permissionDenied _ _ reason => reason
  | .inappropriateType _ _ reason => reason
  | .invalidArgument _ _ reason => reason
  | .resourceExhausted _ _ reason => reason
  | .otherError _ reason => reason
  | error => toString error

/-- The text of the file at a path, or the reason why it cannot be read. -/
def textOfFile (path : String) : IO (Except String String) := do
  try
    return .ok (← IO.FS.readFile path)
  catch error =>
    return .error (reasonOf error)

/-- All of standard input. -/
def standardInput : IO String := do
  (← IO.getStdin).readToEnd

/-- The files and standard input of the machine. -/
def machine : TextAccess IO := ⟨textOfFile, standardInput⟩

/-- Prints a result, and gives the exit code. -/
def report (result : Result) : IO UInt32 := do
  IO.print result.output
  IO.eprint result.errors
  match result.exit with
  | .success => return 0
  | .message text => IO.eprintln text; return 1
  | .usageError => return 2
  | .fault cause => IO.eprintln cause.message; return 1

end Grammatic.CommandLine

/-- The program on its arguments. -/
def main (arguments : List String) : IO UInt32 := do
  Grammatic.CommandLine.report (← Grammatic.CommandLine.run Grammatic.CommandLine.machine arguments)
