import Grammatic.Source.Lines

/-!
# Diagnostics

A diagnostic shows a stretch of a source: a head line `name:line:column: message`, the source line
behind a bar, and an underline of tildes, or a caret for an empty stretch. Columns count from one.
A stretch is cut at the end of the line it starts in. A newline that matters is shown by a return
sign, and a last line without a newline by a crossed one.
-/

namespace Grammatic

/-- A stretch of a source, from a position up to another. -/
structure Span where
  start : Int
  stop : Int
  deriving DecidableEq, Repr

namespace Source

/-- The sign for a newline. -/
def returnSign : String := "⏎"

/-- The sign for the missing newline of a last line. -/
def noReturnSign : String := "⏎͓"

/-- The characters of the line from one place up to another. -/
def lineBetween (source : Source) (first last : Nat) : List Char :=
  (source.chars.take last).drop first

/-- The source line as a diagnostic shows it. -/
def shownLine (line : List Char) (newlineMatters : Bool) : String :=
  if line.getLast? = some '\n' then
    String.ofList line.dropLast ++ (if newlineMatters then returnSign else "")
  else String.ofList line ++ noReturnSign

/-- The indent of an underline: tabs stay tabs, all else is a space. -/
def indentOf (line : List Char) : String :=
  String.ofList (line.map fun c => if c = '\t' then '\t' else ' ')

/-- The column, or the range of columns, of a stretch in a line. -/
def columns (line : Nat) (position stop : Int) : String :=
  let column := fun (p : Int) => toString (p - line + 1)
  if position < stop then column position ++ "-" ++ column stop else column position

/-- The underline of a stretch. -/
def underline (position stop : Int) : String :=
  if stop ≤ position then "^" else "".pushn '~' (stop - position).toNat

/-- The diagnostic of a stretch with a message. -/
def diagnosticAt (position stop : Int) (message : String) : Query String := do
  let index ← lineIndex position
  let source ← get
  let first := source.lineStart position
  let last := source.lineEnd position
  let stop := min stop last
  if first ≤ position ∧ position ≤ stop then
    let line := source.lineBetween first last
    let newlineMatters := position = line.length - 1 + first ∨ stop = last
    let shown := shownLine line newlineMatters
    let name := if source.name = "" then "" else source.name ++ ":"
    let gap := if message = "" ∨ message.toList.head? = some '\n' then "" else " "
    return name ++ toString (index + 1) ++ ":" ++ columns first position stop ++ ":" ++ gap ++
      message ++ "\n" ++ (if shown = "" then "|" else "| ") ++ shown ++ "\n  " ++
      indentOf (line.take (position - first).toNat) ++ underline position stop ++ "\n"
  else throw (.disordered first position stop)

/-- The diagnostics of several stretches, one after the other; missing ones are skipped. -/
def diagnostic (items : List (Option (Span × String))) : Query String :=
  (items.filterMap id).foldlM (fun shown (span, message) => do
    return shown ++ (← diagnosticAt span.start span.stop message)) ""

end Source

end Grammatic
