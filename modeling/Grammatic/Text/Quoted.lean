import Grammatic.Text.CharClass

/-!
# Quoted text

Text as messages show it: between single quotes, or between double quotes when it holds a single
quote and no double quote. The quote, the backslash and the unprintable characters are escaped.
-/

namespace Grammatic.Text

/-- The hexadecimal digit of a number below sixteen. -/
def hexDigit (n : Nat) : Char :=
  Char.ofNat (if n < 10 then '0'.toNat + n else 'a'.toNat + (n - 10))

/-- The last `width` hexadecimal digits of a number. -/
def hexDigits : Nat → Nat → List Char
  | 0, _ => []
  | width + 1, n => hexDigits width (n / 16) ++ [hexDigit (n % 16)]

/-- The escape of an unprintable character, as wide as its code point needs. -/
def escapeCode (c : Char) : List Char :=
  if c.toNat < 0x100 then '\\' :: 'x' :: hexDigits 2 c.toNat
  else if c.toNat < 0x10000 then '\\' :: 'u' :: hexDigits 4 c.toNat
  else '\\' :: 'U' :: hexDigits 8 c.toNat

/-- How one character stands between the given quotes. -/
def quotedChar (quote c : Char) : List Char :=
  if c = quote || c = '\\' then ['\\', c]
  else if c = '\n' then ['\\', 'n']
  else if c = '\t' then ['\\', 't']
  else if c = '\r' then ['\\', 'r']
  else if isPrintable c then [c]
  else escapeCode c

/-- The quote that stands around a text. -/
def quoteFor (text : List Char) : Char :=
  if '\'' ∈ text ∧ '"' ∉ text then '"' else '\''

/-- A text between quotes, with escapes. -/
def quoted (text : String) : String :=
  let quote := quoteFor text.toList
  String.ofList (quote :: text.toList.flatMap (quotedChar quote) ++ [quote])

/-- A single quote inside asks for double quotes around. -/
example : quoted "it's" = "\"it's\"" := by decide +kernel

/-- With both quotes inside, the single ones are escaped. -/
example : quoted "'\"" = "'\\'\"'" := by decide +kernel

/-- Escapes are as wide as the code point needs. -/
example : quoted "a\n\x7f\u200b" = "'a\\n\\x7f\\u200b'" := by decide +kernel

end Grammatic.Text
