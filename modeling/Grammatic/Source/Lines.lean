import Grammatic.Datum

/-!
# Lines of a source

A source is a named text. Its newlines are found lazily: a question about the line of a position
scans the text up to there and keeps the newlines for later questions. A scan past the end of the
text fails when it gets there; what it found stays recorded, and the scanned length does not move.

The start and the end of a line are searched in the text itself. A newline is the last character of
its line, and the end of a text never lies beyond its last line.
-/

namespace Grammatic

/-- A named text, and the positions of the newlines found in it so far. -/
structure Source where
  name : String
  text : String
  /-- Newline positions in the order in which they were found. -/
  newlines : Array Nat := #[]
  /-- The length of the text that has been scanned for newlines. -/
  scanned : Nat := 0
  deriving Repr, Inhabited

/-- Why a question about a source has no answer. -/
inductive SourceError where
  /-- The position is not one of the text. -/
  | outside (position : Int)
  /-- A scan ran past the end of the text. -/
  | scanPastEnd
  /-- The start of a line, a position in it, and a stop are not in order. -/
  | disordered (line : Nat) (position : Int) (stop : Int)
  deriving DecidableEq, Repr

namespace SourceError

/-- The wording of a refusal. -/
def message : SourceError → String
  | .outside position => toString position
  | .scanPastEnd => "string index out of range"
  | .disordered line position stop =>
    "(" ++ toString line ++ ", " ++ toString position ++ ", " ++ toString stop ++ ")"

end SourceError

namespace Source

/-- A question that may record newlines, and may fail after it has recorded some. -/
abbrev Query := EStateM SourceError Source

/-- A source of which nothing has been scanned. -/
def ofText (name text : String) : Source := { name, text }

/-- The source of a piece of data, which has to be a text; any other piece is given back. -/
def ofDatum (name : String) (text : Datum) : Except Datum Source :=
  match text.text? with
  | some text => .ok (ofText name text)
  | none => .error text

/-- The text as a list of characters. -/
def chars (source : Source) : List Char := source.text.toList

/-- The number of characters of the text. -/
def length (source : Source) : Nat := source.chars.length

/-- The text of a source that shows its name and the length of its text. -/
def shown (source : Source) : String :=
  "Source(" ++ Text.quoted source.name ++ ", text=<str[" ++ toString source.length ++ "]>)"

/-- Whether the last character of the text is a newline. -/
def endsLine (source : Source) : Bool :=
  source.chars.getLast? = some '\n'

/-- The positions of the newlines in a list of characters of which the first has a position. -/
def newlinesFrom : List Char → Nat → List Nat
  | [], _ => []
  | c :: rest, position =>
    if c = '\n' then position :: newlinesFrom rest (position + 1)
    else newlinesFrom rest (position + 1)

/-- The newlines from one position up to another. -/
def newlinesBetween (source : Source) (first last : Nat) : List Nat :=
  newlinesFrom ((source.chars.take last).drop first) first

/-- Scans the text for newlines up to a position. -/
def scanTo (position : Int) : Query Unit := fun source =>
  if position ≤ source.scanned then .ok () source
  else
    let found := source.newlines ++ (source.newlinesBetween source.scanned position.toNat).toArray
    if position ≤ source.length then
      .ok () { source with newlines := found, scanned := position.toNat }
    else .error .scanPastEnd { source with newlines := found }

/-- Binary search between two indices for the place behind the entries that lie before a position;
the interval at least halves with each of the given number of steps. -/
def searchBefore (entries : Array Nat) (position : Nat) : Nat → Nat → Nat → Nat
  | 0, low, _ => low
  | steps + 1, low, high =>
    if low < high then
      let middle := (low + high) / 2
      if position ≤ entries[middle]?.getD 0 then searchBefore entries position steps low middle
      else searchBefore entries position steps (middle + 1) high
    else low

/-- The number of entries of an increasing array that lie before a position. -/
def countBefore (entries : Array Nat) (position : Nat) : Nat :=
  searchBefore entries position (entries.size + 1) 0 entries.size

/-- The index of the line that a position lies in. -/
def lineIndex (position : Int) : Query Nat := do
  let source ← get
  if 0 ≤ position ∧ position ≤ source.length then
    scanTo position
    let newlines := (← get).newlines
    if position = source.length then
      return if source.endsLine then newlines.size - 1 else newlines.size
    else return countBefore newlines position.toNat
  else throw (.outside position)

/-- The place in the text that a position denotes: a negative one counts back from the end of the
text, as far as its start. -/
def placeOf (source : Source) (position : Int) : Nat :=
  if position < 0 then (source.length + position).toNat else position.toNat

/-- The place where the line of a position starts. -/
def lineStart (source : Source) (position : Int) : Nat :=
  let position := if position = source.length ∧ source.endsLine then position - 1 else position
  let before := source.chars.take (source.placeOf position)
  before.length - (before.reverse.takeWhile (· ≠ '\n')).length

/-- The place behind the last character of the line of a position. -/
def lineEnd (source : Source) (position : Int) : Nat :=
  let place := source.placeOf position
  let after := source.chars.drop place
  let run := after.takeWhile (· ≠ '\n')
  if run.length = after.length then source.length else place + run.length + 1

end Source

end Grammatic
