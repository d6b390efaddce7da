import Grammatic.CommandLine.Options
import Grammatic.Script.Parser

/-!
# Runs of the command line

Scripts are read from files, from an argument, or from standard input, and their program units are
printed one per line. The first error in a script ends the program with a message; what was printed
before it stays printed.
-/

namespace Grammatic.CommandLine

/-- What cuts a run short without a message of its own. -/
inductive RunFault where
  /-- A script is given by a value that is no text. -/
  | notText (value : Datum)
  | setup (error : Script.SetupError)
  | tokens (error : TokensError)
  | evaluation (fault : Fault Script.BuildError)
  | endless
  | part (error : PartError)
  | position (error : SourceError)

/-- The wording of a fault; what can only come of a broken grammar has none. -/
def RunFault.message : RunFault → String
  | .notText value => value.plain
  | .setup error => error.message
  | .tokens error => error.message
  | .evaluation (.literal error) => error.message
  | .evaluation (.construction error) => error.message
  | .evaluation _ => ""
  | .endless => ""
  | .part error => error.message
  | .position error => error.message

/-- How a run ends. -/
inductive Exit where
  | success
  /-- With a message for the user. -/
  | message (text : String)
  | usageError
  | fault (fault : RunFault)

/-- The output of a run, and how it ends. -/
structure Result where
  output : String := ""
  errors : String := ""
  exit : Exit := .success

/-- Writes every line end as a newline. -/
def uniformNewlines : List Char → List Char
  | '\r' :: '\n' :: rest => '\n' :: uniformNewlines rest
  | '\r' :: rest => '\n' :: uniformNewlines rest
  | c :: rest => c :: uniformNewlines rest
  | [] => []

/-- The source of a text that was read from a file. -/
def sourceOf (name text : String) : Source :=
  .ofText name (String.ofList (uniformNewlines text.toList))

/-- The lines that show the tokens of a script, from a number on. -/
def tokenLines (first : Nat) : List Token → String
  | [] => ""
  | token :: rest =>
    "Parser tokens[" ++ toString first ++ "]: " ++ token.label ++ ": " ++ Text.quoted token.text ++
      "\n" ++ tokenLines (first + 1) rest

/-- The line of a program unit. -/
def unitLine (options : Options) (unit : Value) : Except PartError String := do
  let shown ← if options.skeleton then unit.skeleton else pure unit
  return " => " ++ (← shown.plain) ++ "\n"

/-- The lines of program units, up to one that cannot be shown. -/
def unitLines (options : Options) : List Value → String × Option PartError
  | [] => ("", none)
  | unit :: rest =>
    if Script.isNullStatement unit && !options.all then unitLines options rest
    else
      match unitLine options unit with
      | .error e => ("", some e)
      | .ok line => let (lines, e) := unitLines options rest; (line ++ lines, e)

/-- How a run ends where a series of units does; no exit means that it goes on. -/
def exitOf (stop : Stop Script.BuildError) : Option Exit :=
  match stop with
  | .done => none
  | .error error =>
    match error.diagnostic with
    | .ok text => some (.message text)
    | .error e => some (.fault (.position e))
  | .fault cause => some (.fault (.evaluation cause))
  | .exhausted => some (.fault .endless)

/-- Parses and prints one script. -/
def runSource (options : Options) (script : Script.ScriptParser) (source : Source) : Result :=
  match script.tokens source with
  | .error e => { exit := .fault (.tokens e) }
  | .ok buffer =>
    let errors := if options.showTokens then tokenLines 0 buffer.toList else ""
    let units := script.units buffer
    match unitLines options (units.values.map (·.1)) with
    | (output, some e) => { output, errors, exit := .fault (.part e) }
    | (output, none) => { output, errors, exit := (exitOf units.stop).getD .success }

/-- Parses and prints scripts one after the other, up to one that does not end well. -/
def runSources (options : Options) (script : Script.ScriptParser) : List Source → Result
  | [] => {}
  | source :: rest =>
    let first := runSource options script source
    match first.exit with
    | .success =>
      let others := runSources options script rest
      { output := first.output ++ others.output
        errors := first.errors ++ others.errors
        exit := others.exit }
    | _ => first

/-- The ways to get texts: from the file at a path, which gives the reason if it cannot be read, and
from standard input. -/
structure TextAccess (m : Type → Type) where
  ofFile : String → m (Except String String)
  ofStandardInput : m String

/-- Reads the files at all paths, up to one that cannot be read. -/
def readPaths {m : Type → Type} [Monad m] (access : TextAccess m) :
    List String → m (Except String (List Source))
  | [] => return .ok []
  | path :: rest => do
    match ← access.ofFile path with
    | .error reason =>
      return .error
        ("hobby-parse error: could not read " ++ Text.quoted path ++ ": " ++ reason ++ ".")
    | .ok text =>
      match ← readPaths access rest with
      | .error message => return .error message
      | .ok sources => return .ok (sourceOf path text :: sources)

/-- The value of the option that gives a script, as data. A missing value is an empty list. -/
def Code.datum : Code → Datum
  | .script text => text
  | .missing => .list []

/-- The scripts that the options ask for, or how the run ends without them. -/
def sources {m : Type → Type} [Monad m] (access : TextAccess m) (options : Options) :
    m (Except Exit (List Source)) := do
  match options.code, options.paths with
  | some _, _ :: _ => return .error (.message "`-code` and `paths` are mutually exclusive.")
  | some code, [] =>
    match Source.ofDatum "<code>" code.datum with
    | .error value => return .error (.fault (.notText value))
    | .ok source => return .ok [source]
  | none, [] => return .ok [sourceOf "<stdin>" (← access.ofStandardInput)]
  | none, paths => return (← readPaths access paths).mapError .message

/-- The program. -/
def run {m : Type → Type} [Monad m] (access : TextAccess m) (arguments : List String) :
    m Result := do
  match request arguments with
  | .help => return { output := help }
  | .usageError => return { errors := usage, exit := .usageError }
  | .run options =>
    match ← sources access options with
    | .error exit => return { exit }
    | .ok sources =>
      match Script.ScriptParser.ofVocabulary
          (if options.chinese then Script.chinese else Script.english) with
      | .error e => return { exit := .fault (.setup e) }
      | .ok script => return runSources options script sources

end Grammatic.CommandLine
