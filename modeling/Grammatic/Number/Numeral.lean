import Grammatic.Number.Double
import Grammatic.Text.Quoted

/-!
# Reading numerals

Whole numbers and floating point numbers read from text. Blanks around a numeral are skipped,
digits of every script count, and a single underscore may stand between two digits. A run of more
than 4300 digits is refused before anything that follows it is looked at.
-/

namespace Grammatic

/-- Why a text is no numeral. -/
inductive NumeralError where
  | notInt (text : String)
  | tooManyDigits (count : Nat)
  | notDouble (text : String)
  deriving DecidableEq, Repr

namespace NumeralError

/-- Messages about whole numbers show this many characters of the quoted text. -/
def shownLength : Nat := 200

/-- The wording of a refusal. -/
def message : NumeralError → String
  | .notInt text =>
    "invalid literal for int() with base 10: " ++
      String.ofList ((Text.quoted text).toList.take shownLength)
  | .tooManyDigits count =>
    "Exceeds the limit (4300 digits) for integer string conversion: value has " ++ toString count ++
      " digits; use sys.set_int_max_str_digits() to increase the limit"
  | .notDouble text => "could not convert string to float: " ++ Text.quoted text

end NumeralError

namespace Numeral

/-- The longest run of digits that is read as a whole number. -/
def digitLimit : Nat := 4300

/-- A text without the blanks at its ends. -/
def trim (text : List Char) : List Char :=
  ((text.dropWhile Text.isNumeralBlank).reverse.dropWhile Text.isNumeralBlank).reverse

/-- Splits off a sign; the first part tells whether it is a minus. -/
def splitSign : List Char → Bool × List Char
  | '-' :: rest => (true, rest)
  | '+' :: rest => (false, rest)
  | rest => (false, rest)

/-- The values of the digits of a list of digits. -/
def digitValues (digits : List Char) : List Nat :=
  digits.filterMap Text.digitValue?

/-- The number that decimal digits denote, the most significant first. -/
def ofDigits (values : List Nat) : Nat :=
  values.foldl (fun n d => 10 * n + d) 0

/-- Whether every underscore stands between two digits, if `before` tells that a digit precedes. -/
def underscoresBetween : Bool → List Char → Bool
  | _, [] => true
  | before, '_' :: rest =>
    before && (match rest with | [] => false | c :: _ => Text.isDigit c) &&
      underscoresBetween false rest
  | _, c :: rest => underscoresBetween (Text.isDigit c) rest

/-- Reads a whole number. -/
def readInt (text : String) : Except NumeralError Int :=
  let (negative, body) := splitSign (trim text.toList)
  let inRun := fun c => Text.isDigit c || c = '_'
  let run := body.takeWhile inRun
  let values := digitValues run
  if run = [] ∨ underscoresBetween false run = false then .error (.notInt text)
  else if digitLimit < values.length then .error (.tooManyDigits values.length)
  else if body.dropWhile inRun ≠ [] then .error (.notInt text)
  else .ok (if negative then -(ofDigits values : Int) else ofDigits values)

/-- Reads the exponent part, which may be missing. -/
def readExponent : List Char → Option Int
  | [] => some 0
  | c :: rest =>
    let (negative, digits) := splitSign rest
    if (c = 'e' ∨ c = 'E') ∧ digits ≠ [] ∧ digits.all Text.isDigit then
      let n : Int := ofDigits (digitValues digits)
      some (if negative then -n else n)
    else none

/-- Reads an unsigned decimal fraction, as its digits taken for a whole number and the power of ten
of the last one. -/
def readFraction (body : List Char) : Option (Nat × Int) :=
  let whole := body.takeWhile Text.isDigit
  let rest := body.dropWhile Text.isDigit
  let (fraction, rest) :=
    match rest with
    | '.' :: more => (more.takeWhile Text.isDigit, more.dropWhile Text.isDigit)
    | _ => ([], rest)
  if whole = [] ∧ fraction = [] then none
  else (readExponent rest).map fun exponent =>
    (ofDigits (digitValues (whole ++ fraction)), exponent - fraction.length)

/-- The lower case form of a basic letter. -/
def lowerBasic (c : Char) : Char :=
  if 'A' ≤ c ∧ c ≤ 'Z' then Char.ofNat (c.toNat + 32) else c

/-- Reads a floating point number. -/
def readDouble (text : String) : Except NumeralError Double :=
  let body := trim text.toList
  let (negative, unsigned) := splitSign (body.filter (· ≠ '_'))
  let word := String.ofList (unsigned.map lowerBasic)
  if underscoresBetween false body = false then .error (.notDouble text)
  else if word = "inf" ∨ word = "infinity" then .ok (.infinite negative)
  else if word = "nan" then .ok .nan
  else
    match readFraction unsigned with
    | some (coefficient, exponent) => .ok (.ofDecimal negative coefficient exponent)
    | none => .error (.notDouble text)

/-- Underscores stand between digits, digits of any script count, and blanks are skipped. -/
example : (readInt " -1_\u0662 ").toOption = some (-12) := by decide +kernel

/-- A double underscore is in no numeral. -/
example : (readInt "1__2").toOption = none := by decide +kernel

/-- A fraction that is too large for a finite number. -/
example : (readDouble "1e400").toOption = some (.infinite false) := by decide +kernel

end Numeral

end Grammatic
