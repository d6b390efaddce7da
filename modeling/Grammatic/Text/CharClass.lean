import Grammatic.Text.Table.Word
import Grammatic.Text.Table.Unprintable
import Grammatic.Text.Table.Digit
import Grammatic.Text.Table.Identifier
import Grammatic.Text.Table.Case

/-!
# Classes of characters

Membership in the character classes that names, patterns and numerals are made of. A class is a
table of closed code point ranges in increasing order; a look-up walks the table and stops at the
first range that lies beyond the character. The cases of letters are a table of runs.
-/

namespace Grammatic.Text

/-- Whether a code point lies in one of the ranges, which stand in increasing order. -/
def inRanges : List (Nat × Nat) → Nat → Bool
  | [], _ => false
  | (first, last) :: rest, n => if n < first then false else n ≤ last || inRanges rest n

/-- A letter, a character with a numeric value, or an underscore. -/
def isWord (c : Char) : Bool :=
  inRanges Table.word c.toNat

/-- White space, the information separators included. -/
def isSpace (c : Char) : Bool :=
  inRanges Table.space c.toNat

/-- A character that quoted text shows as it is. -/
def isPrintable (c : Char) : Bool :=
  !inRanges Table.unprintable c.toNat

/-- The offset of a code point in the run of ten that it lies in, if the runs begin at `zeros`. -/
def offsetInRun : List Nat → Nat → Option Nat
  | [], _ => none
  | first :: rest, n =>
    if n < first then none else if n < first + 10 then some (n - first) else offsetInRun rest n

/-- The value of a decimal digit of any script. -/
def digitValue? (c : Char) : Option Nat :=
  offsetInRun Table.zeros c.toNat

/-- A decimal digit of any script. -/
def isDigit (c : Char) : Bool :=
  (digitValue? c).isSome

/-- One of the letters `A` to `Z` and `a` to `z`. -/
def isBasicLetter (c : Char) : Bool :=
  ('a' ≤ c && c ≤ 'z') || ('A' ≤ c && c ≤ 'Z')

/-- A basic letter in its other case. -/
def otherBasicCase (c : Char) : Char :=
  if 'a' ≤ c ∧ c ≤ 'z' then Char.ofNat (c.toNat - 32)
  else if 'A' ≤ c ∧ c ≤ 'Z' then Char.ofNat (c.toNat + 32)
  else c

/-- The other case of a letter that one of the runs lists, in either direction. -/
def otherInRuns : List (Nat × Nat × Nat × Nat) → Nat → Option Nat
  | [], _ => none
  | (first, last, step, distance) :: rest, n =>
    if first ≤ n ∧ n ≤ last ∧ (n - first) % step = 0 then some (n + distance)
    else if first + distance ≤ n ∧ n ≤ last + distance ∧ (n - first - distance) % step = 0 then
      some (n - distance)
    else otherInRuns rest n

/-- The forms of a letter in all its cases. Any other character has itself as its only form. -/
def caseForms (c : Char) : List Char :=
  match Table.caseForms.find? (·.contains c.toNat) with
  | some forms => forms.map Char.ofNat
  | none => c :: ((otherInRuns Table.caseRuns c.toNat).map Char.ofNat).toList

/-- One of the digits `0` to `9`. -/
def isBasicDigit (c : Char) : Bool :=
  '0' ≤ c && c ≤ '9'

/-- One of the six blanks among the control characters and the space. -/
def isBasicSpace (c : Char) : Bool :=
  c = ' ' || (9 ≤ c.toNat && c.toNat ≤ 13)

/-- Blank around a numeral: white space, but not the information separators. -/
def isNumeralBlank (c : Char) : Bool :=
  if c.toNat < 128 then isBasicSpace c else isSpace c

/-- A character that may begin an identifier. -/
def beginsIdentifier (c : Char) : Bool :=
  (isWord c && !isDigit c && !inRanges Table.notInitial c.toNat) ||
    inRanges Table.initialMark c.toNat

/-- A character that may stand in an identifier after its first. -/
def continuesIdentifier (c : Char) : Bool :=
  (isWord c && !inRanges Table.outsideIdentifier c.toNat) ||
    inRanges Table.identifierMark c.toNat

/-- Identifiers by the properties of the character database. -/
def isIdentifier : List Char → Bool
  | [] => false
  | c :: rest => beginsIdentifier c && rest.all continuesIdentifier

/-- Names of token kinds and node tags: a basic letter or an underscore, then word characters. -/
def isName (name : String) : Bool :=
  match name.toList with
  | [] => false
  | c :: rest => (isBasicLetter c || c = '_') && rest.all isWord

end Grammatic.Text
