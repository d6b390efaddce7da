import Grammatic.Text.CharClass

/-!
# Options of the command line

Options begin with a hyphen and may be shortened as long as they can be told apart. The paths stand
together: paths before and after an option are refused. Arguments are read from the left; a call for
help, and an option with a wrong value, count at once, and arguments that nothing takes at the end.
-/

namespace Grammatic.CommandLine

/-- The value of the option that gives a script. -/
inductive Code where
  | script (text : String)
  /-- The mark of the end of the options, which is never a value, so that there is none. -/
  | missing
  deriving DecidableEq, Repr

/-- The code in a value that stands in one argument with its option. -/
def Code.ofAttached (value : String) : Code :=
  if value = "--" then .missing else .script value

/-- What the command line asks for. -/
structure Options where
  /-- A script given as an argument. -/
  code : Option Code := none
  paths : List String := []
  /-- Use the Chinese vocabulary. -/
  chinese : Bool := false
  /-- Print skeletons of trees. -/
  skeleton : Bool := false
  /-- Print empty statements too. -/
  all : Bool := false
  /-- Show the tokens of each script. -/
  showTokens : Bool := false
  deriving DecidableEq, Repr

/-- The options that can be given. -/
inductive Switch where
  | help
  | code
  | chinese
  | skeleton
  | all
  | showTokens
  deriving DecidableEq, Repr

/-- The names of the options. -/
def switches : List (String × Switch) := [
  ("-h", .help),
  ("--help", .help),
  ("-code", .code),
  ("-zh", .chinese),
  ("-skeleton", .skeleton),
  ("-all", .all),
  ("-dbg-tokens", .showTokens)]

/-- An argument by its form. -/
inductive Item where
  | plain (text : String)
  /-- The mark behind which all arguments are plain. -/
  | endOfOptions
  | switch (switch : Switch) (value : Option String)
  | unknown
  deriving DecidableEq, Repr

/-- Whether an argument is a negative number, which is no option. A newline may end it. -/
def isNegativeNumber (text : List Char) : Bool :=
  match text with
  | '-' :: digits =>
    let digits := if digits.getLast? = some '\n' then digits.dropLast else digits
    let whole := digits.takeWhile Text.isDigit
    match digits.dropWhile Text.isDigit with
    | [] => !whole.isEmpty
    | '.' :: fraction => !fraction.isEmpty && fraction.all Text.isDigit
    | _ => false
  | _ => false

/-- The part of an argument before the first equals sign. -/
def nameIn (text : List Char) : List Char := text.takeWhile (· ≠ '=')

/-- The part of an argument behind the first equals sign, if it has one. -/
def valueIn? (text : List Char) : Option String :=
  if '=' ∈ text then some (String.ofList ((text.dropWhile (· ≠ '=')).drop 1)) else none

/-- The form of an option with the value that is attached to it, if any. Letters may stand together
behind one hyphen, so a value is more letters where an option takes none; help is the only option
of one letter. -/
def Item.ofSwitch (text : List Char) (switch : Switch) (value : Option String) : Item :=
  match text, switch, value with
  | '-' :: '-' :: _, _, _ => .switch switch value
  | _, .code, _ => .switch switch value
  | _, _, some letters =>
    if letters ≠ "" && letters.toList.all (· = 'h') then .switch .help none
    else .switch switch value
  | _, _, none => .switch switch none

/-- The options that a shortened name may stand for. A name of one letter may have its value
directly behind it. -/
def candidates (text : List Char) : List (Switch × Option String) :=
  match text with
  | '-' :: '-' :: _ =>
    let name := nameIn text
    let value := valueIn? text
    switches.filterMap fun (full, switch) =>
      if name.isPrefixOf full.toList then some (switch, value) else none
  | _ =>
    switches.filterMap fun (full, switch) =>
      if full.toList = text.take 2 then some (switch, some (String.ofList (text.drop 2)))
      else if text.isPrefixOf full.toList then some (switch, none)
      else none

/-- The form of an argument before the end of the options. -/
def classify (argument : String) : Item :=
  let text := argument.toList
  match text with
  | '-' :: _ :: _ =>
    if argument = "--" then .endOfOptions
    else
      match switches.lookup argument, switches.lookup (String.ofList (nameIn text)) with
      | some switch, _ => .switch switch none
      | none, some switch => .ofSwitch text switch (valueIn? text)
      | none, none =>
        match candidates text with
        | [(switch, value)] => .ofSwitch text switch value
        | _ :: _ => .unknown
        | [] => if isNegativeNumber text || ' ' ∈ text then .plain argument else .unknown
  | _ => .plain argument

/-- The forms of all arguments. -/
def classifyAll : List String → List Item
  | [] => []
  | argument :: rest =>
    match classify argument with
    | .endOfOptions => .endOfOptions :: rest.map .plain
    | item => item :: classifyAll rest

/-- How far the paths have been read. -/
inductive PathState where
  | before
  | reading
  | behind
  deriving DecidableEq, Repr

/-- The state of the paths behind an option. -/
def PathState.close : PathState → PathState
  | .before => .before
  | _ => .behind

/-- What reading the options comes to. -/
inductive Request where
  | run (options : Options)
  | help
  | usageError
  deriving DecidableEq, Repr

/-- Reads the options and paths of a list of arguments. `refused` tells that there was an argument
that nothing takes. -/
def readItems : List Item → PathState → (refused : Bool) → Options → Request
  | [], _, refused, options => if refused then .usageError else .run options
  | .unknown :: rest, paths, _, options => readItems rest paths true options
  | .plain _ :: rest, .behind, _, options => readItems rest .behind true options
  | .plain path :: rest, _, refused, options =>
    readItems rest .reading refused { options with paths := options.paths ++ [path] }
  | .endOfOptions :: rest, .behind, _, options => readItems rest .behind true options
  | .endOfOptions :: rest, _, refused, options => readItems rest .reading refused options
  | .switch .code (some value) :: rest, paths, refused, options =>
    readItems rest paths.close refused { options with code := some (.ofAttached value) }
  | .switch .code none :: .plain text :: rest, paths, refused, options =>
    readItems rest paths.close refused { options with code := some (.script text) }
  | .switch .code none :: _, _, _, _ => .usageError
  | .switch _ (some _) :: _, _, _, _ => .usageError
  | .switch .help none :: _, _, _, _ => .help
  | .switch .chinese none :: rest, paths, refused, options =>
    readItems rest paths.close refused { options with chinese := true }
  | .switch .skeleton none :: rest, paths, refused, options =>
    readItems rest paths.close refused { options with skeleton := true }
  | .switch .all none :: rest, paths, refused, options =>
    readItems rest paths.close refused { options with all := true }
  | .switch .showTokens none :: rest, paths, refused, options =>
    readItems rest paths.close refused { options with showTokens := true }

/-- What a list of arguments asks for. -/
def request (arguments : List String) : Request :=
  readItems (classifyAll arguments) .before false {}

/-- A shortened option, and a path behind it. -/
example : request ["-z", "a"] = .run { chinese := true, paths := ["a"] } := by decide +kernel

/-- Paths do not stand on both sides of an option. -/
example : request ["a", "-z", "b"] = .usageError := by decide +kernel

/-- A call for help comes before an argument that nothing takes. -/
example : request ["-x", "-h"] = .help := by decide +kernel

/-- Letters behind a hyphen are options of one letter. -/
example : request ["-hh"] = .help ∧ request ["-ha"] = .usageError := by decide +kernel

/-- How the program is called. -/
def usage : String :=
  "usage: hobby-parse [-h] [-code CODE] [-zh] [-skeleton] [-all] [-dbg-tokens]\n" ++
    "                   [paths ...]\n"

/-- The answer to a call for help. -/
def help : String :=
  usage ++
    "\nParse HobbyScript source and print the syntax trees.\n" ++
    "\npositional arguments:\n" ++
    "  paths        Source files to parse; stdin is read if no paths or `-code` are\n" ++
    "               given.\n" ++
    "\noptions:\n" ++
    "  -h, --help   show this help message and exit\n" ++
    "  -code CODE   Parse the argument string as source.\n" ++
    "  -zh          Use the Chinese keyword vocabulary.\n" ++
    "  -skeleton    Print tree skeletons instead of s-expressions.\n" ++
    "  -all         Also print the empty statements produced by separators.\n" ++
    "  -dbg-tokens  Print each lexed token to stderr.\n"

end Grammatic.CommandLine
