import Grammatic.Number.Numeral
import Grammatic.Scalar
import Grammatic.Token.Basic

/-!
# Literals

How the text of a token becomes a value: numbers, names, quoted strings with escapes, truth values
and nothing. Only a number can fail to be read.
-/

namespace Grammatic

/-- The ways to read a token as a value. -/
inductive Literal where
  | number
  | name
  | string
  | null
  /-- True for tokens of one kind, and false for all others. -/
  | truth (trueKind : TokenKind)
  deriving DecidableEq, Repr

namespace Literal

/-- What stands for an escaped character of a string. -/
def unescapedChar : Char → Char
  | 'n' => '\n'
  | 't' => '\t'
  | 'r' => '\r'
  | '0' => '\x00'
  | c => c

/-- Replaces the escapes of a string; a backslash at the end stands for itself. -/
def unescape : List Char → List Char
  | '\\' :: c :: rest => unescapedChar c :: unescape rest
  | c :: rest => c :: unescape rest
  | [] => []

/-- A text without the quotes around it, if the same quote stands at both ends. -/
def unquote (text : List Char) : List Char :=
  match text.head?, text.getLast? with
  | some first, some last =>
    if 2 ≤ text.length ∧ first = last ∧ (first = '"' ∨ first = '\'') then text.tail.dropLast
    else text
  | _, _ => text

/-- Reads a number; a point or an exponent makes it a floating point number. -/
def readNumber (text : String) : Except NumeralError Scalar :=
  if text.toList.any fun c => c = '.' ∨ c = 'e' ∨ c = 'E' then
    (Numeral.readDouble text).map .real
  else (Numeral.readInt text).map .int

/-- The value of a token. -/
def value (token : Token) : Literal → Except NumeralError Scalar
  | .number => readNumber token.text
  | .name => .ok (.text token.text)
  | .string => .ok (.text (String.ofList (unescape (unquote token.text.toList))))
  | .null => .ok .absent
  | .truth trueKind => .ok (.flag (token.kind = trueKind))

end Literal

end Grammatic
